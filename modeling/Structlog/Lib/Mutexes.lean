import Mathlib.Data.Option.Basic

/-!
# Mutexes

A mutex is `some h` while `h` has it.  `Guards` is what it is for: those in its
critical section are those that have it, so there is at most one (`Guards.unique`).
The rules say how a step keeps this: it may leave the section as it is, or take or
give back a mutex.
-/

namespace Structlog.Lib

variable {ι : Type*}

/-- Whoever is in the section has the mutex, and the other way round. -/
def Guards (inside : ι → Prop) (mutex : Option ι) : Prop := ∀ h, inside h ↔ mutex = some h

namespace Guards

variable {inside inside' : ι → Prop} {mutex : Option ι} {h h' : ι}

theorem unique (hguards : Guards inside mutex) (hin : inside h) (hin' : inside h') : h = h' :=
  Option.some.inj (((hguards h).mp hin).symm.trans ((hguards h').mp hin'))

theorem not_inside (hguards : Guards inside none) (h : ι) : ¬ inside h :=
  fun hin => Option.some_ne_none h ((hguards h).mp hin).symm

theorem congr (hguards : Guards inside mutex) (hsame : ∀ h, inside' h ↔ inside h) :
    Guards inside' mutex := fun h => (hsame h).trans (hguards h)

/-- Only `h` has moved, from outside to inside. -/
theorem acquire (hguards : Guards inside none) (hin : inside' h)
    (hothers : ∀ other, other ≠ h → (inside' other ↔ inside other)) :
    Guards inside' (some h) := by
  intro other
  by_cases heq : other = h
  · rw [heq]
    exact iff_of_true hin rfl
  · rw [hothers other heq]
    exact iff_of_false (hguards.not_inside other) fun hsome => heq (Option.some.inj hsome).symm

/-- Only `h` has moved, from inside to outside. -/
theorem release (hguards : Guards inside (some h)) (hout : ¬ inside' h)
    (hothers : ∀ other, other ≠ h → (inside' other ↔ inside other)) :
    Guards inside' none := by
  intro other
  refine iff_of_false ?_ (Option.some_ne_none other).symm
  intro hin
  by_cases heq : other = h
  · exact hout (heq ▸ hin)
  · exact heq (Option.some.inj ((hguards other).mp ((hothers other heq).mp hin))).symm

end Guards

end Structlog.Lib
