import Mathlib.Data.List.Basic
import Mathlib.Logic.Function.Basic

/-!
# Numbered generations

Slots `0`, `1`, … of which slot `0` is the newest and some may be vacant.
`shift n` moves what is below slot `n` up by one, from the top down, so that slot
`0` becomes vacant; what was in slot `n` gives way.  Read from the oldest to the
newest, nothing else changes (`oldestFirst_shift`).
-/

namespace Structlog.Lib.Generations

variable {α : Type*}

/-- What is in slots `n` to `0`. -/
def oldestFirst (g : ℕ → Option α) : ℕ → List α
  | 0 => (g 0).toList
  | n + 1 => (g (n + 1)).toList ++ oldestFirst g n

/-- Move what is in slot `i` to the one above. -/
def moveUp (g : ℕ → Option α) (i : ℕ) : ℕ → Option α :=
  if (g i).isSome then Function.update (Function.update g (i + 1) (g i)) i none else g

/-- Move slots `n - 1` to `0`, in that order. -/
def shift : ℕ → (ℕ → Option α) → ℕ → Option α
  | 0, g => g
  | n + 1, g => shift n (moveUp g n)

theorem oldestFirst_congr {g g' : ℕ → Option α} {n : ℕ} (h : ∀ i ≤ n, g i = g' i) :
    oldestFirst g n = oldestFirst g' n := by
  induction n with
  | zero => rw [oldestFirst, oldestFirst, h 0 (Nat.le_refl _)]
  | succ n ih =>
      rw [oldestFirst, oldestFirst, h (n + 1) (Nat.le_refl _), ih fun i hi => h i (by omega)]

/-- The newest comes last. -/
theorem oldestFirst_update_zero (g : ℕ → Option α) (n : ℕ) :
    ∃ older, ∀ x, oldestFirst (Function.update g 0 x) n = older ++ x.toList := by
  induction n with
  | zero => exact ⟨[], fun x => by simp [oldestFirst]⟩
  | succ n ih =>
      obtain ⟨older, holder⟩ := ih
      refine ⟨(g (n + 1)).toList ++ older, ?_⟩
      intro x
      rw [oldestFirst, holder, Function.update_of_ne (Nat.succ_ne_zero n), List.append_assoc]

theorem moveUp_self (g : ℕ → Option α) (i : ℕ) : moveUp g i i = none := by
  unfold moveUp
  split_ifs with h
  · exact Function.update_self ..
  · simpa using h

theorem moveUp_of_ne (g : ℕ → Option α) {i j : ℕ} (hi : j ≠ i) (hsucc : j ≠ i + 1) :
    moveUp g i j = g j := by
  unfold moveUp
  split_ifs
  · rw [Function.update_of_ne hi, Function.update_of_ne hsucc]
  · rfl

/-- Into a vacant slot, a move changes nothing of the sequence. -/
theorem oldestFirst_moveUp {g : ℕ → Option α} {n : ℕ} (h : g (n + 1) = none) :
    oldestFirst (moveUp g n) (n + 1) = oldestFirst g (n + 1) := by
  have hbelow (k : ℕ) (hk : k < n) : oldestFirst (moveUp g n) k = oldestFirst g k :=
    oldestFirst_congr fun i hi => moveUp_of_ne g (by omega) (by omega)
  have hmoved : moveUp g n (n + 1) = g n := by
    unfold moveUp
    split_ifs with hn
    · rw [Function.update_of_ne (by omega), Function.update_self]
    · rw [h, Option.not_isSome_iff_eq_none.mp hn]
  cases n with
  | zero => simp [oldestFirst, hmoved, moveUp_self, h]
  | succ k =>
      simp only [oldestFirst, hmoved, moveUp_self, h, hbelow k (by omega), Option.toList_none,
        List.nil_append]

/-- A shift below a vacant slot. -/
theorem oldestFirst_shift_vacant {g : ℕ → Option α} {n : ℕ} (h : g n = none) :
    oldestFirst (shift n g) n = oldestFirst g n ∧ shift n g 0 = none ∧
      ∀ i > n, shift n g i = g i := by
  induction n generalizing g with
  | zero => exact ⟨rfl, h, fun _ _ => rfl⟩
  | succ n ih =>
      obtain ⟨hseq, hzero, habove⟩ := ih (moveUp_self g n)
      refine ⟨?_, hzero, fun i hi => ?_⟩
      · calc oldestFirst (shift (n + 1) g) (n + 1)
            = (moveUp g n (n + 1)).toList ++ oldestFirst (moveUp g n) n := by
              rw [oldestFirst, shift, habove (n + 1) (by omega), hseq]
          _ = oldestFirst g (n + 1) := oldestFirst_moveUp h
      · rw [shift, habove i (by omega), moveUp_of_ne g (by omega) (by omega)]

/-- A shift and a newest element loses at most the oldest, and only if slot `n` was taken. -/
theorem oldestFirst_shift (g : ℕ → Option α) (n : ℕ) (x : α) :
    ∃ k, (k = 0 ∨ k = 1 ∧ (g n).isSome = true) ∧
      oldestFirst (Function.update (shift n g) 0 (some x)) n =
        (oldestFirst g n).drop k ++ [x] := by
  cases n with
  | zero =>
      cases h : g 0 with
      | none => exact ⟨0, .inl rfl, by simp [oldestFirst, h]⟩
      | some y => exact ⟨1, .inr ⟨rfl, rfl⟩, by simp [oldestFirst, h]⟩
  | succ n =>
      obtain ⟨hseq, hzero, habove⟩ := oldestFirst_shift_vacant (moveUp_self g n)
      obtain ⟨older, holder⟩ := oldestFirst_update_zero (shift (n + 1) g) (n + 1)
      have hshift : oldestFirst (shift (n + 1) g) (n + 1) = older := by
        have hvacant : shift (n + 1) g 0 = none := hzero
        have hsame := holder none
        rwa [Function.update_eq_self_iff.mpr hvacant.symm, Option.toList_none, List.append_nil]
          at hsame
      have hmoved : oldestFirst (shift (n + 1) g) (n + 1) =
          oldestFirst (moveUp g n) (n + 1) := by
        rw [oldestFirst, oldestFirst, shift, habove (n + 1) (by omega), hseq]
      obtain ⟨k, hlost, hk⟩ : ∃ k, (k = 0 ∨ k = 1 ∧ (g (n + 1)).isSome = true) ∧
          oldestFirst (moveUp g n) (n + 1) = (oldestFirst g (n + 1)).drop k := by
        cases hn : g n with
        | none => exact ⟨0, .inl rfl, by simp [moveUp, hn]⟩
        | some y =>
            have hvacated : oldestFirst (moveUp g n) (n + 1) =
                oldestFirst (Function.update g (n + 1) none) (n + 1) := by
              rw [← oldestFirst_moveUp (Function.update_self (n + 1) none g)]
              apply oldestFirst_congr
              intro i _
              simp [moveUp, hn]
            have hbelow : oldestFirst (Function.update g (n + 1) none) n = oldestFirst g n :=
              oldestFirst_congr fun i hi => Function.update_of_ne (by omega) ..
            refine ⟨(g (n + 1)).toList.length, ?_, ?_⟩
            · cases g (n + 1) with
              | none => exact .inl rfl
              | some z => exact .inr ⟨rfl, rfl⟩
            rw [hvacated, oldestFirst, oldestFirst, hbelow, Function.update_self, List.drop_left]
            rfl
      exact ⟨k, hlost, by rw [holder, ← hshift, hmoved, hk]; rfl⟩

end Structlog.Lib.Generations
