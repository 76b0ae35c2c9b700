import Mathlib.Data.List.Basic
import Mathlib.Data.List.DropRight

/-!
# Bounded FIFO queues

A queue is the list of its items, oldest first, and has room for `n` of them.
Pushing onto a full queue drops the oldest item, so a queue always holds the
latest `n` of the items pushed and not yet popped.

`Fifo` is such a queue as an object: with a capacity, or without any (disabled),
and with what has been dropped from it so far.
-/

namespace Structlog.Lib.BoundedFifo

variable {α : Type*}

/-- Push `x`, dropping the oldest items beyond `n`. -/
def push (n : ℕ) (items : List α) (x : α) : List α :=
  (items ++ [x]).drop (items.length + 1 - n)

/-- What `push` drops. -/
def dropped (n : ℕ) (items : List α) (x : α) : List α :=
  (items ++ [x]).take (items.length + 1 - n)

theorem dropped_append_push (n : ℕ) (items : List α) (x : α) :
    dropped n items x ++ push n items x = items ++ [x] :=
  List.take_append_drop _ _

theorem push_of_room {n : ℕ} {items : List α} (h : items.length < n) (x : α) :
    push n items x = items ++ [x] := by
  rw [push, show items.length + 1 - n = 0 by omega, List.drop_zero]

theorem dropped_of_room {n : ℕ} {items : List α} (h : items.length < n) (x : α) :
    dropped n items x = [] := by
  rw [dropped, show items.length + 1 - n = 0 by omega, List.take_zero]

theorem push_of_full {n : ℕ} {items : List α} (h : items.length = n) (x : α) :
    push n items x = (items ++ [x]).tail := by
  rw [push, h, Nat.add_sub_cancel_left, List.drop_one]

theorem dropped_of_full {n : ℕ} {items : List α} (h : items.length = n) (x : α) :
    dropped n items x = (items ++ [x]).take 1 := by
  rw [dropped, h, Nat.add_sub_cancel_left]

theorem push_map {β : Type*} (n : ℕ) (items : List α) (f : α → β) (x : α) :
    push n (items.map f) (f x) = (push n items x).map f := by
  simp [push]

theorem dropped_map {β : Type*} (n : ℕ) (items : List α) (f : α → β) (x : α) :
    dropped n (items.map f) (f x) = (dropped n items x).map f := by
  simp [dropped]

/-- The last `n` items. -/
def latest (n : ℕ) (items : List α) : List α := items.drop (items.length - n)

@[simp] theorem latest_nil (n : ℕ) : latest n ([] : List α) = [] := List.drop_nil

theorem length_latest_le (n : ℕ) (items : List α) : (latest n items).length ≤ n := by
  rw [latest, List.length_drop]
  omega

theorem latest_of_length_le {n : ℕ} {items : List α} (h : items.length ≤ n) :
    latest n items = items := by
  rw [latest, Nat.sub_eq_zero_of_le h, List.drop_zero]

/-- A queue that holds the last `n` items still does so after a push. -/
theorem push_latest (n : ℕ) (items : List α) (x : α) :
    push n (latest n items) x = latest n (items ++ [x]) := by
  by_cases h : items.length ≤ n
  · rw [latest_of_length_le h, push, latest, List.length_append, List.length_singleton]
  · have hlength : (latest n items).length = n := by
      rw [latest, List.length_drop]
      omega
    have hfirst : items.length - n ≤ items.length := Nat.sub_le _ _
    rw [push_of_full hlength, latest, latest, ← List.drop_append_of_le_length hfirst,
      List.tail_drop, List.length_append, List.length_singleton]
    congr 1
    omega

theorem latest_eq_nil_iff {n : ℕ} (hn : 0 < n) {items : List α} :
    latest n items = [] ↔ items = [] := by
  rw [latest, List.drop_eq_nil_iff, ← List.length_eq_zero_iff]
  omega

/-- Two windows show the same if they are of one size or both show everything. -/
theorem latest_eq_latest_iff {m n : ℕ} {items : List α} :
    latest m items = latest n items ↔ m = n ∨ items.length ≤ min m n := by
  constructor
  · intro h
    have hlength := congrArg List.length h
    rw [latest, latest, List.length_drop, List.length_drop] at hlength
    omega
  · rintro (rfl | hle)
    · rfl
    · obtain ⟨hm, hn⟩ := Nat.le_min.mp hle
      rw [latest_of_length_le hm, latest_of_length_le hn]

/-- Of the items that were put behind `before`, those dropped are the ones before
the last `n`. -/
theorem mem_window {n : ℕ} {gone items before pushed : List α}
    (h : gone ++ items = before ++ pushed) (hle : items.length ≤ n)
    (hfull : gone ≠ [] → items.length = n) (hnodup : pushed.Nodup)
    (hbefore : ∀ x ∈ before, x ∉ pushed) {x : α} (hx : x ∈ pushed) :
    x ∈ pushed.drop (pushed.length - n) ↔ x ∉ gone := by
  rcases List.append_eq_append_iff.mp h with ⟨late, rfl, rfl⟩ | ⟨early, rfl, rfl⟩
  -- What is gone is a first part of `before`.
  · have hlength : pushed.length ≤ n := by
      simp only [List.length_append] at hle
      omega
    rw [Nat.sub_eq_zero_of_le hlength, List.drop_zero]
    apply iff_of_true hx
    intro hgone
    exact hbefore x (List.mem_append_left _ hgone) hx
  -- All of `before` is gone, and with it what was pushed first.
  · have hdrop : (early ++ items).drop ((early ++ items).length - n) = items := by
      rcases List.eq_nil_or_concat early with rfl | ⟨_, _, hearly⟩
      · rw [List.nil_append, Nat.sub_eq_zero_of_le hle, List.drop_zero]
      · rw [← hfull (by simp [hearly]), List.length_append, Nat.add_sub_cancel, List.drop_left]
    rw [hdrop]
    constructor
    · intro hitems hgone
      rcases List.mem_append.mp hgone with hgone | hgone
      · exact hbefore x hgone hx
      · exact (List.nodup_append.mp hnodup).2.2 x hgone x hitems rfl
    · intro hgone
      exact (List.mem_append.mp hx).resolve_left fun hearly =>
        hgone (List.mem_append_right _ hearly)

/-! ## The queue as an object -/

structure Fifo (α : Type*) where
  /-- None for a disabled queue. -/
  capacity : Option ℕ
  items : List α
  dropped : List α
  deriving Repr

namespace Fifo

def disabled : Fifo α := ⟨none, [], []⟩

def withCapacity (n : ℕ) : Fifo α := ⟨some n, [], []⟩

/-- A disabled queue ignores what is pushed. -/
def push (f : Fifo α) (x : α) : Fifo α :=
  match f.capacity with
  | none => f
  | some n =>
      { f with
        items := BoundedFifo.push n f.items x
        dropped := f.dropped ++ BoundedFifo.dropped n f.items x }

def pop (f : Fifo α) : Fifo α := { f with items := f.items.tail }

def Full (f : Fifo α) : Prop := f.capacity = some f.items.length

instance (f : Fifo α) : Decidable f.Full := inferInstanceAs (Decidable (_ = _))

end Fifo

end Structlog.Lib.BoundedFifo
