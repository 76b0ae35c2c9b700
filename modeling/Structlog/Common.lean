import Structlog.Lib.Bytes

/-!
# Levels, source locations and exceptions

The small types of `common.h`.  Level comparison is comparison of the
enumerators' values, so `Level.toNat` is all the order there is.  An exception
is kept as far as the catch clauses of the library look at it: a
`std::exception` with its `what()`, or anything else.
-/

namespace Structlog

open Lib

inductive Level
  | trace
  | debug
  | info
  | warn
  | err
  | critical
  | off
  deriving DecidableEq, Repr

namespace Level

def toNat : Level → ℕ
  | trace => 0
  | debug => 1
  | info => 2
  | warn => 3
  | err => 4
  | critical => 5
  | off => 6

/-- `SPDLOG_LEVEL_NAMES`. -/
def toStringView : Level → Bytes
  | trace => ascii "trace"
  | debug => ascii "debug"
  | info => ascii "info"
  | warn => ascii "warning"
  | err => ascii "error"
  | critical => ascii "critical"
  | off => ascii "off"

/-- `SPDLOG_SHORT_LEVEL_NAMES`. -/
def toShortCStr : Level → Bytes
  | trace => ascii "T"
  | debug => ascii "D"
  | info => ascii "I"
  | warn => ascii "W"
  | err => ascii "E"
  | critical => ascii "C"
  | off => ascii "O"

end Level

/-- `source_loc`; a null `const char *` is `none`. -/
structure SourceLoc where
  filename : Option Bytes := none
  line : ℤ := 0
  funcname : Option Bytes := none
  deriving DecidableEq, Repr

/-- `source_loc::empty` looks at the line alone. -/
def SourceLoc.empty (loc : SourceLoc) : Bool := loc.line = 0

/-- What a `throw` can carry, as the catch clauses tell it apart. -/
inductive Thrown
  | std (what : Bytes)
  | other
  deriving DecidableEq, Repr

/-- `throw_spdlog_ex(msg)`: `spdlog_ex` is a `std::exception`. -/
def spdlogEx (msg : Bytes) : Thrown := .std msg

/-! ## Calls that may not return

A call ends in a state either way: what kept it from returning, if anything did, and
the state it left.  Most calls can only throw. -/

/-- How a call can end without returning. -/
inductive Stop
  | threw (thrown : Thrown)
  /-- It waits, and nothing will ever wake it up. -/
  | waits
  deriving DecidableEq, Repr

abbrev Outcome (σ : Type*) (ε : Type := Thrown) := Option ε × σ

section Outcomes

variable {α σ : Type*} {ε : Type}

/-- A call that can throw, among others that may wait for ever. -/
def Outcome.orWaits (o : Outcome σ) : Outcome σ Stop := (o.1.map .threw, o.2)

/-- Go on with the state, unless something was thrown. -/
def Outcome.andThen (o : Outcome σ ε) (next : σ → Outcome σ ε) : Outcome σ ε :=
  match o.1 with
  | none => next o.2
  | some thrown => (some thrown, o.2)

theorem Outcome.andThen_returned {o : Outcome σ ε} (h : o.1 = none)
    (next : σ → Outcome σ ε) : o.andThen next = next o.2 := by
  rw [Outcome.andThen, h]

theorem Outcome.andThen_threw {o : Outcome σ ε} {thrown : ε}
    (h : o.1 = some thrown) (next : σ → Outcome σ ε) : o.andThen next = (some thrown, o.2) := by
  rw [Outcome.andThen, h]

/-- The call for one after the other until one throws: how many have returned, and how it
ended. -/
def Outcome.each (call : α → σ → Outcome σ ε) : List α → σ → ℕ × Outcome σ ε
  | [], s => (0, none, s)
  | x :: rest, s =>
      match call x s with
      | (some thrown, s') => (0, some thrown, s')
      | (none, s') => ((each call rest s').1 + 1, (each call rest s').2)

theorem Outcome.each_returned {call : α → σ → Outcome σ ε} {x : α} {s : σ}
    (h : (call x s).1 = none) (rest : List α) :
    each call (x :: rest) s =
      ((each call rest (call x s).2).1 + 1, (each call rest (call x s).2).2) := by
  rcases hcall : call x s with ⟨_ | thrown, s'⟩
  · rw [each, hcall]
  · rw [hcall] at h
    cases h

theorem Outcome.each_threw {call : α → σ → Outcome σ ε} {x : α} {s : σ}
    {thrown : ε} (h : (call x s).1 = some thrown) (rest : List α) :
    each call (x :: rest) s = (0, some thrown, (call x s).2) := by
  rcases hcall : call x s with ⟨_ | thrown', s'⟩
  · rw [hcall] at h
    cases h
  · rw [hcall] at h
    rw [each, hcall]
    exact congrArg (fun t => (0, t, s')) h

theorem Outcome.each_singleton (call : α → σ → Outcome σ ε) (x : α) (s : σ) :
    (each call [x] s).2 = call x s := by
  rw [each]
  rcases call x s with ⟨_ | thrown, s'⟩ <;> rfl

/-- All of the calls have returned, or the last one counted threw. -/
theorem Outcome.each_append (call : α → σ → Outcome σ ε) (xs ys : List α) (s : σ) :
    ((each call xs s).2.1 = none → (each call xs s).1 = xs.length ∧
      each call (xs ++ ys) s =
        (xs.length + (each call ys (each call xs s).2.2).1,
          (each call ys (each call xs s).2.2).2)) ∧
    ((each call xs s).2.1 ≠ none → (each call xs s).1 < xs.length ∧
      each call (xs ++ ys) s = each call xs s) := by
  induction xs generalizing s with
  | nil => exact ⟨fun _ => ⟨rfl, by simp [each]⟩, fun h => absurd rfl h⟩
  | cons x xs ih =>
      rw [List.cons_append, List.length_cons]
      cases hcall : (call x s).1 with
      | none =>
          rw [each_returned hcall, each_returned hcall]
          obtain ⟨hreturned, hthrew⟩ := ih (call x s).2
          constructor
          · intro h
            obtain ⟨hcount, heq⟩ := hreturned h
            dsimp only at heq ⊢
            rw [heq, hcount]
            exact ⟨rfl, Prod.ext (Nat.add_right_comm _ _ _) rfl⟩
          · intro h
            obtain ⟨hcount, heq⟩ := hthrew h
            dsimp only
            rw [heq]
            exact ⟨Nat.succ_lt_succ hcount, rfl⟩
      | some thrown =>
          rw [each_threw hcall, each_threw hcall]
          constructor
          · intro h
            cases h
          · exact fun _ => ⟨Nat.succ_pos _, rfl⟩

/-- The call was part of a larger object's. -/
def Outcome.within {τ : Type*} (o : Outcome σ ε) (whole : σ → τ) : Outcome τ ε := (o.1, whole o.2)

end Outcomes

end Structlog
