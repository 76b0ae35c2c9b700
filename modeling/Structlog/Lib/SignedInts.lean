import Mathlib.Algebra.Ring.Int.Defs
import Mathlib.Tactic.SplitIfs

/-!
# Signed integers of a fixed width

The result of an operation on signed integers is the exact one, and there is none if the type
does not have it.  A computation in such steps answers exactly if all its results are in range,
and then with what the steps give on integers without bounds (`signed_bind_eq_some_iff`).
-/

namespace Structlog.Lib

/-- The values of the signed type of so many bits. -/
def InSigned (bits : ℕ) (n : ℤ) : Prop := -2 ^ (bits - 1) ≤ n ∧ n < 2 ^ (bits - 1)

instance (bits : ℕ) (n : ℤ) : Decidable (InSigned bits n) := inferInstanceAs (Decidable (_ ∧ _))

/-- A result of the type. -/
def signed (bits : ℕ) (n : ℤ) : Option ℤ := if InSigned bits n then some n else none

variable {bits : ℕ} {n : ℤ}

theorem signed_eq_some_iff {m : ℤ} : signed bits n = some m ↔ InSigned bits n ∧ n = m := by
  unfold signed
  split_ifs with h
  · rw [Option.some.injEq, and_iff_right h]
  · exact iff_of_false (by simp) fun hm => h hm.1

/-- The first step is in range, and the rest goes on with its result. -/
theorem signed_bind_eq_some_iff {β : Type} {rest : ℤ → Option β} {b : β} :
    (signed bits n >>= rest) = some b ↔ InSigned bits n ∧ rest n = some b := by
  unfold signed
  split_ifs with h
  · exact (and_iff_right h).symm
  · exact iff_of_false (by simp) fun hb => h hb.1

end Structlog.Lib
