import Structlog.CircularQObjects
import Structlog.LogMsg

/-!
# `backtracer`

A ring of the latest messages, kept for a later dump.  `enable` sets the flag before it
constructs the ring, so that the flag stays set where the construction throws.

`foreach_pop` is a loop over the ring with a callback that may throw or wait.  Two runs
of it whose callbacks keep two states related leave the same ring
(`foreachPopLoop_related`).
-/

namespace Structlog

open Lib

structure Backtracer where
  enabled : Bool
  messages : CircularQ Record

namespace Backtracer

/-- A logger's backtracer before `enable`: a ring of no size. -/
def initial : Backtracer := ⟨false, .disabled⟩

/-- What `std::vector` throws where it cannot be that long. -/
def lengthError : Thrown := .std (ascii "cannot create std::vector larger than max_size()")

/-- `enable`, where `allocation` is what asking for the memory of the ring throws.  The
old ring stays if there is no new one. -/
def enable (size : ℕ) (allocation : Option Thrown) (b : Backtracer) : Outcome Backtracer :=
  match CircularQ.construct size, allocation with
  | none, _ => (some lengthError, { b with enabled := true })
  | some _, some thrown => (some thrown, { b with enabled := true })
  | some messages, none => (none, { enabled := true, messages })

/-- The vector can be that long, and there is the memory for it. -/
def RingMade (size : ℕ) (allocation : Option Thrown) : Prop :=
  addSizeT size 1 ≤ vectorMaxSize ∧ allocation = none

instance (size : ℕ) (allocation : Option Thrown) : Decidable (RingMade size allocation) :=
  inferInstanceAs (Decidable (_ ∧ _))

theorem enable_of_ringMade {size : ℕ} {allocation : Option Thrown} (h : RingMade size allocation)
    (b : Backtracer) : b.enable size allocation = (none, ⟨true, .new size⟩) := by
  rw [h.2]
  simp [enable, CircularQ.construct, h.1]

/-- The flag is set, and the old ring stays. -/
theorem enable_of_not_ringMade {size : ℕ} {allocation : Option Thrown}
    (h : ¬ RingMade size allocation) (b : Backtracer) :
    (b.enable size allocation).1.isSome ∧
      (b.enable size allocation).2 = { b with enabled := true } := by
  by_cases hsize : addSizeT size 1 ≤ vectorMaxSize
  · cases allocation with
    | none => exact absurd ⟨hsize, rfl⟩ h
    | some thrown => simp [enable, CircularQ.construct, hsize]
  · simp [enable, CircularQ.construct, hsize]

theorem enabled_enable (size : ℕ) (allocation : Option Thrown) (b : Backtracer) :
    (b.enable size allocation).2.enabled = true := by
  by_cases h : RingMade size allocation
  · rw [enable_of_ringMade h]
  · rw [(enable_of_not_ringMade h b).2]

def disable (b : Backtracer) : Backtracer := { b with enabled := false }

/-- `messages_.push_back(log_msg_buffer{msg})`. -/
def pushBack (msg : Record) (b : Backtracer) : Backtracer :=
  { b with messages := b.messages.pushBack (LogMsgBuffer.stored b.messages.tail msg) }

/-- The loop of `foreach_pop`: a message is popped once `call` has returned.
`fuel` bounds the number of turns, which `maxItems` is enough for. -/
def foreachPopLoop {σ : Type*} {ε : Type} (call : Record → σ → Outcome σ ε) :
    ℕ → CircularQ Record → σ → Outcome (CircularQ Record × σ) ε
  | 0, messages, s => (none, messages, s)
  | fuel + 1, messages, s =>
      if messages.empty then (none, messages, s)
      else
        match call messages.front s with
        | (some thrown, s') => (some thrown, messages, s')
        | (none, s') => foreachPopLoop call fuel messages.popFront s'

def foreachPop {σ : Type*} {ε : Type} (call : Record → σ → Outcome σ ε) (b : Backtracer) (s : σ) :
    Outcome (Backtracer × σ) ε :=
  (foreachPopLoop call b.messages.maxItems b.messages s).within fun r =>
    ({ b with messages := r.1 }, r.2)

/-! ## Two runs side by side -/

/-- Calls that keep two states related and throw nothing leave the same ring. -/
theorem foreachPopLoop_related {σ τ : Type*} {ε : Type} {R : σ → τ → Prop}
    {call : Record → σ → Outcome σ ε} {call' : Record → τ → Outcome τ ε}
    (hcall : ∀ msg s t, R s t →
      (call msg s).1 = none ∧ (call' msg t).1 = none ∧ R (call msg s).2 (call' msg t).2)
    (fuel : ℕ) (messages : CircularQ Record) {s : σ} {t : τ} (h : R s t) :
    let left := foreachPopLoop call fuel messages s
    let right := foreachPopLoop call' fuel messages t
    left.1 = none ∧ right.1 = none ∧ left.2.1 = right.2.1 ∧ R left.2.2 right.2.2 := by
  induction fuel generalizing messages s t with
  | zero => exact ⟨rfl, rfl, rfl, h⟩
  | succ fuel ih =>
      obtain ⟨hleft, hright, hrelated⟩ := hcall messages.front s t h
      simp only [foreachPopLoop]
      by_cases hempty : messages.empty = true
      · simp only [if_pos hempty]
        exact ⟨trivial, trivial, trivial, h⟩
      · simp only [if_neg hempty]
        rcases hl : call messages.front s with ⟨thrown, s'⟩
        rcases hr : call' messages.front t with ⟨thrown', t'⟩
        rw [hl] at hleft hrelated
        rw [hr] at hright hrelated
        obtain rfl : thrown = none := hleft
        obtain rfl : thrown' = none := hright
        exact ih messages.popFront hrelated

end Backtracer

end Structlog
