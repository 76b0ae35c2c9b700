import Mathlib.Algebra.BigOperators.Group.List.Basic
import Mathlib.Algebra.GroupWithZero.Nat
import Mathlib.Data.List.Flatten

/-!
# Replacing one element of a list

What `List.set` does to the collections that are made of all elements.
-/

namespace Structlog.Lib

variable {α β : Type*}

/-- The collected lists before and after have the other elements' parts in
common. -/
theorem perm_flatMap_set {l : List α} {i : ℕ} {a : α} (h : l[i]? = some a) (b : α)
    (f : α → List β) :
    ∃ rest, (l.flatMap f).Perm (f a ++ rest) ∧ ((l.set i b).flatMap f).Perm (f b ++ rest) := by
  induction l generalizing i with
  | nil => simp at h
  | cons c l ih =>
      cases i with
      | zero =>
          obtain rfl : c = a := by simpa using h
          exact ⟨l.flatMap f, by simp, by simp⟩
      | succ i =>
          obtain ⟨rest, hold, hnew⟩ := ih (by simpa using h)
          refine ⟨f c ++ rest, ?_, ?_⟩
          · rw [List.flatMap_cons]
            exact (hold.append_left (f c)).trans (List.perm_append_comm_assoc _ _ _)
          · rw [List.set_cons_succ, List.flatMap_cons]
            exact (hnew.append_left (f c)).trans (List.perm_append_comm_assoc _ _ _)

theorem getElem?_set_of_some {l : List α} {i : ℕ} {a : α} (h : l[i]? = some a) (b : α) (j : ℕ) :
    (l.set i b)[j]? = if j = i then some b else l[j]? := by
  obtain ⟨hi, -⟩ := List.getElem?_eq_some_iff.mp h
  by_cases hj : j = i
  · rw [if_pos hj, hj, List.getElem?_set_self hi]
  · rw [if_neg hj, List.getElem?_set_ne (Ne.symm hj)]

/-- What stands in a list to which `b` has been added. -/
theorem getElem?_concat_eq_some {l : List α} {a b : α} {i : ℕ} (h : (l ++ [b])[i]? = some a) :
    l[i]? = some a ∨ i = l.length ∧ a = b := by
  rcases Nat.lt_or_ge i l.length with hi | hi
  · exact .inl (List.getElem?_append_left hi ▸ h)
  · rw [List.getElem?_append_right hi] at h
    obtain ⟨hlt, hb⟩ := List.getElem?_eq_some_iff.mp h
    rw [List.length_singleton] at hlt
    exact .inr ⟨by omega, List.mem_singleton.mp (hb ▸ List.getElem_mem hlt)⟩

theorem sum_map_set {l : List α} {i : ℕ} {a : α} (h : l[i]? = some a) (b : α) (f : α → ℕ) :
    ((l.set i b).map f).sum + f a = (l.map f).sum + f b := by
  induction l generalizing i with
  | nil => simp at h
  | cons c l ih =>
      cases i with
      | zero =>
          obtain rfl : c = a := by simpa using h
          simp only [List.set_cons_zero, List.map_cons, List.sum_cons]
          omega
      | succ i =>
          have := ih (i := i) (by simpa using h)
          simp only [List.set_cons_succ, List.map_cons, List.sum_cons]
          omega

end Structlog.Lib
