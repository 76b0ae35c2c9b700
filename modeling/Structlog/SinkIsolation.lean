import Structlog.LogStatements

/-!
# Sinks of one logger

What a sink gets of the calls on its logger is what it would get as the only sink
(`SinkState.alone`), whatever the others do as long as they throw nothing but
`std::exception`: the loops catch that at each sink, and flush after it as they would
otherwise.
-/

namespace Structlog

open Lib

/-- The calls that go through to the sinks, of a `logger` and of an `async_logger`. -/
inductive SinkWork
  | sinkIt (msg : Record)
  | flush
  | backendSinkIt (msg : Record)
  | backendFlush

def Logger.doWork (work : SinkWork) (l : Logger) : Outcome Logger :=
  match work with
  | .sinkIt msg => l.loggerSinkIt msg
  | .flush => l.loggerFlush
  | .backendSinkIt msg => l.backendSinkIt msg
  | .backendFlush => l.backendFlush

/-- A call, whether it throws or not. -/
def Logger.work (l : Logger) (work : SinkWork) : Logger := (l.doWork work).2

/-! ## A sink alone -/

/-- `should_flush_`, for the level that is set. -/
def flushes (flushLevel : Level) (msg : Record) : Bool :=
  flushLevel.toNat ≤ msg.level.toNat && msg.level ≠ .off

/-- What an event for a sink throws out of the loop. -/
def SinkState.escapes (event : SinkEvent) (wanted : Sink → Bool) (s : SinkState) :
    Option Thrown :=
  if wanted s.sink then
    match s.sink.respond s.seen event with
    | some .other => some .other
    | _ => none
  else none

/-- What a sink gets of a message for which it is the only one. -/
def SinkState.sunk (flushLevel : Level) (msg : Record) (s : SinkState) : SinkState :=
  let s' := s.deliver (.log msg) (fun sink => sink.shouldLog msg.level)
  if s.escapes (.log msg) (fun sink => sink.shouldLog msg.level) = none ∧ flushes flushLevel msg
  then s'.deliver .flush (fun _ => true) else s'

def SinkState.alone (flushLevel : Level) (s : SinkState) (work : SinkWork) : SinkState :=
  match work with
  | .sinkIt msg | .backendSinkIt msg => s.sunk flushLevel msg
  | .flush | .backendFlush => s.deliver .flush (fun _ => true)

/-! ## A sink among others -/

theorem stdOnly_deliver {sinks : List SinkState} (hstd : ∀ s ∈ sinks, s.sink.StdOnly)
    (event : SinkEvent) (wanted : Sink → Bool) :
    ∀ s ∈ sinks.map (·.deliver event wanted), s.sink.StdOnly := by
  intro s hs
  obtain ⟨first, hfirst, rfl⟩ := List.mem_map.mp hs
  exact first.sink_deliver event wanted ▸ hstd first hfirst

theorem ErrHandler.Returns.more {h : ErrHandler} (hret : h.Returns) (reported : List Bytes) :
    ErrHandler.Returns { h with reported } := hret

/-- The event comes to the first sink, and to the others if that does not end the loop. -/
theorem eachSink_cons (event : SinkEvent) (wanted : Sink → Bool) (location : SourceLoc)
    (s : SinkState) {after : List SinkState} (hstd : ∀ other ∈ after, other.sink.StdOnly)
    {h : ErrHandler} (hret : h.Returns) :
    ∃ after' h', eachSink event wanted location (s :: after) h =
        (s.escapes event wanted, s.deliver event wanted :: after', h') ∧
      (∀ other ∈ after', other.sink.StdOnly) ∧ h'.Returns := by
  have hdelivered := stdOnly_deliver hstd event wanted
  rw [eachSink, SinkState.escapes, SinkState.deliver]
  by_cases hw : wanted s.sink = true
  · rw [if_pos hw, if_pos hw, if_pos hw, SinkState.receive]
    rcases s.sink.respond s.seen event with _ | ⟨what | _⟩
    · simp only [loggerCatch, eachSink_spec event wanted location after h hstd hret]
      exact ⟨_, _, rfl, hdelivered, hret.more _⟩
    · have hcalled := hret.more (h.reported ++ [report location what])
      simp only [loggerCatch, hret.call, eachSink_spec event wanted location after _ hstd hcalled]
      exact ⟨_, _, rfl, hdelivered, hcalled.more _⟩
    · simp only [loggerCatch, hret.call, Outcome.andThen]
      exact ⟨_, _, rfl, hstd, hret.more _⟩
  · rw [if_neg hw, if_neg hw, if_neg hw, eachSink_spec event wanted location after h hstd hret]
    exact ⟨_, _, rfl, hdelivered, hret.more _⟩

/-- What becomes of a sink among others does not depend on them. -/
structure Logger.Beside (l : Logger) (flushLevel : Level) (position : ℕ) (s : SinkState) :
    Prop where
  flushLevel : l.flushLevel = flushLevel
  others : ∃ before after, l.sinks = before ++ s :: after ∧ before.length = position ∧
    ∀ other ∈ before ++ after, other.sink.StdOnly
  returns : l.errHandler.Returns

namespace Logger

variable {l : Logger} {flushLevel : Level} {position : ℕ} {s : SinkState}

theorem Beside.getElem? (h : l.Beside flushLevel position s) : l.sinks[position]? = some s := by
  obtain ⟨before, after, hsinks, rfl, -⟩ := h.others
  rw [hsinks, List.getElem?_append_right le_rfl, Nat.sub_self, List.getElem?_cons_zero]

theorem Beside.overSinks (h : l.Beside flushLevel position s) (event : SinkEvent)
    (wanted : Sink → Bool) (location : SourceLoc) :
    (l.overSinks event wanted location).1 = s.escapes event wanted ∧
      (l.overSinks event wanted location).2.Beside flushLevel position
        (s.deliver event wanted) := by
  obtain ⟨before, after, hsinks, hposition, hstd⟩ := h.others
  obtain ⟨hbefore, hafter⟩ := List.forall_mem_append.mp hstd
  obtain ⟨after', h', hcons, hafter', hret'⟩ := eachSink_cons event wanted location s hafter
    (h.returns.more (l.errHandler.reported ++
      before.filterMap (·.failure event wanted location)))
  rw [Logger.overSinks, hsinks,
    eachSink_append event wanted location hbefore (s :: after) h.returns, hcons]
  refine ⟨rfl, h.flushLevel, ⟨_, after', rfl, ?_, ?_⟩, hret'⟩
  · rw [List.length_map]
    exact hposition
  · exact List.forall_mem_append.mpr ⟨stdOnly_deliver hbefore event wanted, hafter'⟩

theorem Beside.loggerSinkIt (h : l.Beside flushLevel position s) (msg : Record) :
    (l.loggerSinkIt msg).2.Beside flushLevel position (s.sunk flushLevel msg) := by
  obtain ⟨hescapes, hlogged⟩ :=
    h.overSinks (.log msg) (fun sink => sink.shouldLog msg.level) msg.source
  rw [Logger.loggerSinkIt, SinkState.sunk]
  generalize l.overSinks (.log msg) (fun sink => sink.shouldLog msg.level) msg.source = logged
    at hescapes hlogged
  obtain ⟨thrown, l'⟩ := logged
  obtain rfl : thrown = _ := hescapes
  cases hthrown : s.escapes (.log msg) (fun sink => sink.shouldLog msg.level) with
  | some thrown =>
      rw [if_neg fun hboth => Option.some_ne_none thrown hboth.1]
      exact hlogged
  | none =>
      have hflushes : l'.shouldFlush msg = flushes flushLevel msg := by
        rw [shouldFlush, hlogged.flushLevel, flushes]
      simp only [Outcome.andThen, hflushes, true_and]
      split_ifs
      · exact (hlogged.overSinks .flush (fun _ => true) {}).2
      · exact hlogged

/-- A call on the logger does to a sink what it would do if there were no other. -/
theorem Beside.work (h : l.Beside flushLevel position s) (work : SinkWork) :
    (l.work work).Beside flushLevel position (s.alone flushLevel work) := by
  cases work with
  | sinkIt msg | backendSinkIt msg => exact h.loggerSinkIt msg
  | flush | backendFlush => exact (h.overSinks _ _ _).2

theorem Beside.run (h : l.Beside flushLevel position s) (works : List SinkWork) :
    (Runs.run Logger.work l works).Beside flushLevel position
      (Runs.run (SinkState.alone flushLevel) s works) := by
  induction works generalizing l s with
  | nil => exact h
  | cons first rest ih => exact ih (h.work first)

/-! ## What a call brings -/

/-- The calls that a sink receives of a call on the logger. -/
def events (flushLevel : Level) (sink : Sink) : SinkWork → List SinkEvent
  | .sinkIt msg | .backendSinkIt msg =>
      (if sink.shouldLog msg.level then [.log msg] else []) ++
        if flushes flushLevel msg then [.flush] else []
  | .flush | .backendFlush => [.flush]

/-- Every sink gets its calls, the automatic flush among them, and every one of these that fails
is reported once. -/
structure Served (l : Logger) (work : SinkWork) : Prop where
  returns : (l.doWork work).1 = none
  received : (l.work work).sinks =
    l.sinks.map fun s => { s with seen := s.seen ++ events l.flushLevel s.sink work }
  reported : (l.work work).reportCount + l.failureCount =
    l.reportCount + (l.work work).failureCount

theorem sinks_sunk (msg : Record) (l : Logger) :
    (l.sunk msg).sinks = l.sinks.map fun s =>
      { s with seen := s.seen ++ events l.flushLevel s.sink (.sinkIt msg) } := by
  have hflushes : (l.delivered (.log msg) (fun sink => sink.shouldLog msg.level)
      msg.source).shouldFlush msg = flushes l.flushLevel msg := rfl
  rw [sunk, hflushes]
  split_ifs with hflush
  · simp only [flushed, delivered, List.map_map]
    refine List.map_congr_left fun s _ => ?_
    simp only [Function.comp, SinkState.deliver, events, if_pos hflush]
    split_ifs <;> simp
  · simp only [delivered]
    refine List.map_congr_left fun s _ => ?_
    simp only [SinkState.deliver, events, if_neg hflush]
    split_ifs <;> simp

theorem Contained.doWork (h : l.Contained) (work : SinkWork) :
    ∃ l', l.doWork work = (none, l') ∧ l'.Contained ∧
      (l'.sinks =
        l.sinks.map fun s => { s with seen := s.seen ++ events l.flushLevel s.sink work }) ∧
      l'.reportCount + l.failureCount = l.reportCount + l'.failureCount := by
  cases work with
  | sinkIt msg | backendSinkIt msg =>
      exact ⟨_, h.loggerSinkIt msg, h.sunk msg, sinks_sunk msg l, h.reportCount_sunk msg⟩
  | flush | backendFlush =>
      exact ⟨_, h.loggerFlush, h.flushed, rfl, h.reportCount_delivered .flush (fun _ => true) {}⟩

theorem Contained.served (h : l.Contained) (work : SinkWork) :
    l.Served work ∧ (l.work work).Contained := by
  obtain ⟨l', hdone, hcontained, hsinks, hreported⟩ := h.doWork work
  have hwork : l.work work = l' := congrArg Prod.snd hdone
  rw [← hwork] at hcontained hsinks hreported
  exact ⟨⟨congrArg Prod.fst hdone, hsinks, hreported⟩, hcontained⟩

theorem Contained.served_run (h : l.Contained) (works : List SinkWork) :
    ∀ p ∈ Runs.trace Logger.work l works, p.1.Served p.2 := by
  obtain ⟨-, hcontained⟩ := Runs.invariant_of_steps (motive := Contained)
    (C := fun _ _ => True) (fun _ work h _ => (h.served work).2) h works fun _ _ => trivial
  exact fun p hp => ((hcontained p hp).served p.2).1

end Logger

/-! ## Two loggers -/

/-- A sink that two loggers have in common gets the same calls from both, whatever the other
sinks of either do with `std::exception`.  If it throws nothing else itself, then every sink gets
the calls for it, with the flush after a message that has failed, and each failed call is
reported once. -/
theorem sinks_do_not_interfere (works : List SinkWork) (l l' : Logger) (s : SinkState)
    (before after before' after' : List SinkState) (hsinks : l.sinks = before ++ s :: after)
    (hsinks' : l'.sinks = before' ++ s :: after') (hflushLevel : l.flushLevel = l'.flushLevel)
    (hstd : ∀ other ∈ before ++ after, other.sink.StdOnly)
    (hstd' : ∀ other ∈ before' ++ after', other.sink.StdOnly)
    (hret : l.errHandler.Returns) (hret' : l'.errHandler.Returns) :
    (∃ s', (Runs.run Logger.work l works).sinks[before.length]? = some s' ∧
        (Runs.run Logger.work l' works).sinks[before'.length]? = some s') ∧
      (s.sink.StdOnly → ∀ p ∈ Runs.trace Logger.work l works, p.1.Served p.2) := by
  have hbeside : l.Beside l'.flushLevel before.length s :=
    ⟨hflushLevel, ⟨before, after, hsinks, rfl, hstd⟩, hret⟩
  have hbeside' : l'.Beside l'.flushLevel before'.length s :=
    ⟨rfl, ⟨before', after', hsinks', rfl, hstd'⟩, hret'⟩
  refine ⟨⟨_, (hbeside.run works).getElem?, (hbeside'.run works).getElem?⟩, fun hs => ?_⟩
  refine Logger.Contained.served_run ⟨fun other hother => ?_, hret⟩ works
  obtain ⟨hbefore, hafter⟩ := List.forall_mem_append.mp hstd
  rw [hsinks] at hother
  rcases List.mem_append.mp hother with hother | hother
  · exact hbefore other hother
  · rcases List.mem_cons.mp hother with rfl | hother
    · exact hs
    · exact hafter other hother

/-- A sink that does nothing but throw, or does not throw. -/
def steadySink (thrown : Option Thrown) : SinkState := ⟨⟨.trace, fun _ _ => thrown⟩, []⟩

def loggerOf (sinks : List SinkState) : Logger :=
  { name := ascii "l"
    level := .trace
    flushLevel := .warn
    sinks
    errHandler := ⟨none, []⟩
    tracer := .initial
    async := none }

/-- A sink behind one that fails at every call, and the same sink alone. -/
theorem sinks_do_not_interfere_failing :
    let works : List SinkWork := [.sinkIt { (default : Record) with level := .err }, .flush,
      .backendSinkIt { (default : Record) with level := .info }, .backendFlush]
    let l := loggerOf [steadySink (some (.std (ascii "disk full"))), steadySink none]
    (∃ s', (Runs.run Logger.work l works).sinks[1]? = some s' ∧
        (Runs.run Logger.work (loggerOf [steadySink none]) works).sinks[0]? = some s') ∧
      ∀ p ∈ Runs.trace Logger.work l works, p.1.Served p.2 := by
  intro works l
  have hstd (what : Bytes) : (steadySink (some (.std what))).sink.StdOnly := fun _ _ h => by
    cases h
  obtain ⟨hsame, hserved⟩ := sinks_do_not_interfere works l
    (loggerOf [steadySink none]) (steadySink none)
    [steadySink (some (.std (ascii "disk full")))] [] [] [] rfl rfl rfl
    (fun other hother => List.mem_singleton.mp hother ▸ hstd _)
    (fun other hother => absurd hother List.not_mem_nil) (fun _ h => nomatch h)
    (fun _ h => nomatch h)
  exact ⟨hsame, hserved fun _ _ h => nomatch h⟩

end Structlog
