import Structlog.Lib.Runs
import Structlog.PatternOutput

/-!
# Formatting one message after the other

A formatter keeps what it has compiled, and the state of its flags, from one message to the
next.  `step` is `format` as a machine that answers with what becomes of a buffer, or fails.
-/

namespace Structlog

open Lib

/-- The text of a formatter, without padding. -/
def FlagFormatter.unpadded (pid : ℤ) (msg : Record) (tm : Tm) (f : FlagFormatter) : Bytes :=
  match f.padded pid msg tm with
  | some (_, made) => made.text
  | none => f.plainText msg tm

namespace PatternFormatter

/-- Formatters that append their texts. -/
theorem formatAll_appends {pid : ℤ} {msg : Record} {tm : Tm} {formatters : List FlagFormatter}
    (h : ∀ f ∈ formatters, ∀ t, f.write pid msg tm t = .ok (t.append (f.unpadded pid msg tm)))
    (t : Target) :
    formatAll pid msg tm formatters t =
      .ok (formatters.map (·.next msg tm),
        t.append (formatters.flatMap (·.unpadded pid msg tm))) := by
  induction formatters generalizing t with
  | nil =>
      rw [List.flatMap_nil, Target.append, List.append_nil]
      rfl
  | cons f rest ih =>
      obtain ⟨hfirst, hrest⟩ := List.forall_mem_cons.mp h
      rw [formatAll_cons, hfirst, Except.bind, ih hrest, List.flatMap_cons]
      simp only [Except.map, Target.append, List.append_assoc]
      rfl

/-- `set_pattern`: the broken-down time stays in the cache. -/
def setPattern (now : ℤ) (pattern : Bytes) (pf : PatternFormatter) : PatternFormatter :=
  { pf with pattern, formatters := compilePattern now pattern }

/-- A call of `format`, for a message and a buffer. -/
def step (env : Environment) (pf : PatternFormatter) (call : Record × Target) :
    Except Failure (PatternFormatter × Target) :=
  pf.format env call.1 call.2

/-- The refreshed time depends on the cache and the kind of time only. -/
theorem cachedTm_refresh_congr {pf pf' : PatternFormatter} (htype : pf.patternTimeType =
    pf'.patternTimeType) (htm : pf.cachedTm = pf'.cachedTm)
    (hsecs : pf.lastLogSecs = pf'.lastLogSecs) (env : Environment) (msg : Record) :
    (pf.refresh env msg).cachedTm = (pf'.refresh env msg).cachedTm := by
  unfold refresh getTime
  rw [htype, hsecs]
  dsimp only
  split_ifs
  · rfl
  · exact htm

end PatternFormatter

end Structlog
