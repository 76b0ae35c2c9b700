import Mathlib.Data.List.Basic
import Mathlib.Data.List.DropRight

/-!
# Trees of directories

A directory is the list of the names on the way to it from the root.  A tree has the root and,
with a directory, the one that this is in; so it has all directories on the way
(`has_of_prefix`).
-/

namespace Structlog.Lib

structure DirTree (κ : Type*) where
  has : List κ → Bool
  has_root : has [] = true
  has_parent : ∀ dir, has dir = true → has dir.dropLast = true

namespace DirTree

variable {κ : Type*}

/-- A directory that has been made in another one. -/
def insert [DecidableEq κ] (dir : List κ) (t : DirTree κ) (h : t.has dir.dropLast = true) :
    DirTree κ where
  has other := decide (other = dir) || t.has other
  has_root := by rw [t.has_root, Bool.or_true]
  has_parent other hother := by
    rcases Bool.or_eq_true_iff.mp hother with hnew | hold
    · rw [of_decide_eq_true hnew, h, Bool.or_true]
    · rw [t.has_parent other hold, Bool.or_true]

@[simp] theorem has_insert [DecidableEq κ] {dir : List κ} {t : DirTree κ}
    (h : t.has dir.dropLast = true) (other : List κ) :
    (t.insert dir h).has other = true ↔ other = dir ∨ t.has other = true := by
  rw [insert, Bool.or_eq_true_iff, decide_eq_true_iff]

theorem has_of_append (t : DirTree κ) {dir more : List κ} (h : t.has (dir ++ more) = true) :
    t.has dir = true := by
  induction more using List.reverseRecOn with
  | nil => rwa [List.append_nil] at h
  | append_singleton more name ih =>
      have hparent := t.has_parent _ h
      rw [← List.append_assoc, List.dropLast_concat] at hparent
      exact ih hparent

end DirTree

end Structlog.Lib
