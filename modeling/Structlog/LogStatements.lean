import Structlog.Executor
import Structlog.Lib.Runs

/-!
# Log statements and the error handler

The runs of a logger: log statements in any order, each spread over the calls
that make, use, move and destroy its executors, and between them everything else
that can happen to the logger, its thread pool being destroyed included.

`log_` has a try block, but it ends before the executor's destructor calls
`executor_callback`.  What `sink_it_` throws there reaches the caller.  The
sinks have try blocks of their own, so that only the posting of an asynchronous
logger is left.  It throws if the thread pool is gone or no `shared_ptr` owns the
logger, and it never returns if it waits for room in a queue that has no place.

`post_returns_iff` says when a post returns, `Contained.sinkIt` and
`Contained.executorCallback` carry this to the destructor of an executor, and
`Mergeable` is what every step keeps.  So a step is `Safe` exactly when it is
`Deliverable` (`step_safe_iff`), and the two agree along every run.
-/

namespace Structlog

open Lib

/-! ## Failures of the sinks -/

/-- What the calls `events` threw, the calls `before` having come first. -/
def thrownBy (respond : List SinkEvent → SinkEvent → Option Thrown) :
    List SinkEvent → List SinkEvent → List Thrown
  | _, [] => []
  | before, event :: rest =>
      (respond before event).toList ++ thrownBy respond (before ++ [event]) rest

/-- What the calls of this sink have thrown so far. -/
def SinkState.thrown (s : SinkState) : List Thrown := thrownBy s.sink.respond [] s.seen

/-- How many sink calls have thrown so far. -/
def Logger.failureCount (l : Logger) : ℕ := (l.sinks.map fun s => s.thrown.length).sum

def Logger.reportCount (l : Logger) : ℕ := l.errHandler.reported.length

theorem thrownBy_concat (respond : List SinkEvent → SinkEvent → Option Thrown)
    (before events : List SinkEvent) (event : SinkEvent) :
    thrownBy respond before (events ++ [event]) =
      thrownBy respond before events ++ (respond (before ++ events) event).toList := by
  induction events generalizing before with
  | nil => simp [thrownBy]
  | cons e rest ih => simp [thrownBy, ih]

/-- A delivery is reported if and only if it threw. -/
theorem SinkState.length_thrown_deliver {s : SinkState} (hstd : s.sink.StdOnly)
    (event : SinkEvent) (wanted : Sink → Bool) (location : SourceLoc) :
    (s.deliver event wanted).thrown.length =
      s.thrown.length + (s.failure event wanted location).toList.length := by
  by_cases hw : wanted s.sink = true
  · have hlength : (s.sink.respond s.seen event).toList.length =
        (s.failure event wanted location).toList.length := by
      rw [SinkState.failure, if_pos hw]
      cases hthrown : s.sink.respond s.seen event with
      | none => rfl
      | some thrown =>
          cases thrown with
          | std what => rfl
          | other => exact absurd hthrown (hstd s.seen event)
    rw [SinkState.deliver, if_pos hw, SinkState.thrown, thrownBy_concat, List.length_append,
      List.nil_append, hlength]
    rfl
  · simp [SinkState.deliver, SinkState.failure, hw]

namespace Logger

/-- Every failure of a delivery is reported. -/
theorem Contained.reportCount_delivered {l : Logger} (h : l.Contained) (event : SinkEvent)
    (wanted : Sink → Bool) (location : SourceLoc) :
    (l.delivered event wanted location).reportCount + l.failureCount =
      l.reportCount + (l.delivered event wanted location).failureCount := by
  have hsum : ∀ sinks : List SinkState, (∀ s ∈ sinks, s.sink.StdOnly) →
      ((sinks.map (·.deliver event wanted)).map fun s => s.thrown.length).sum =
        (sinks.map fun s => s.thrown.length).sum +
          (sinks.filterMap (·.failure event wanted location)).length := by
    intro sinks hsinks
    induction sinks with
    | nil => rfl
    | cons s rest ih =>
        have hs := SinkState.length_thrown_deliver (hsinks s (by simp)) event wanted location
        have hrest := ih fun s' hs' => hsinks s' (List.mem_cons_of_mem _ hs')
        simp only [List.map_cons, List.sum_cons, hs, hrest, List.filterMap_cons]
        cases s.failure event wanted location with
        | none =>
            simp only [Option.toList_none, List.length_nil]
            omega
        | some text =>
            simp only [Option.toList_some, List.length_cons, List.length_nil]
            omega
  have hsinks := hsum l.sinks h.stdOnly
  simp only [reportCount, failureCount, Logger.delivered, List.length_append] at hsinks ⊢
  omega

theorem Contained.reportCount_sunk {l : Logger} (h : l.Contained) (msg : Record) :
    (l.sunk msg).reportCount + l.failureCount = l.reportCount + (l.sunk msg).failureCount := by
  have hlog := h.reportCount_delivered (.log msg) (fun sink => sink.shouldLog msg.level) msg.source
  have hflush := (h.delivered (.log msg) (fun sink => sink.shouldLog msg.level)
    msg.source).reportCount_delivered .flush (fun _ => true) {}
  unfold Logger.sunk Logger.flushed
  dsimp only
  split_ifs
  · omega
  · exact hlog

/-! ## Posting -/

/-- What `sink_it_` needs so that it can hand a message on. -/
def canHandOn (l : Logger) : Bool :=
  match l.async with
  | none => true
  | some link => link.canTake

theorem post_returns_iff (gone : Bytes) (msg : AsyncMsg) (link : PoolLink) :
    (post gone msg link).1 = none ↔ link.canTake = true := by
  rw [post, PoolLink.canTake]
  cases link.poolAlive <;> cases link.shared <;> cases link.overflowPolicy <;>
    cases link.neverRoom <;> simp

/-- `sink_it_` returns, with every failure reported, exactly if the message can be
handed on. -/
theorem Contained.sinkIt {l : Logger} (h : l.Contained) (msg : Record) :
    (l.sinkIt msg).2.Contained ∧
      (l.sinkIt msg).2.reportCount + l.failureCount =
        l.reportCount + (l.sinkIt msg).2.failureCount ∧
      ((l.sinkIt msg).1 = none ↔ l.canHandOn = true) := by
  unfold Logger.sinkIt canHandOn
  cases hasync : l.async with
  | none =>
      simp only [h.loggerSinkIt]
      exact ⟨h.sunk msg, h.reportCount_sunk msg, iff_of_true rfl trivial⟩
  | some link =>
      exact ⟨⟨h.stdOnly, h.returns⟩, rfl,
        post_returns_iff (ascii "async log: thread pool doesn't exist anymore") (.log msg) link⟩

/-! ## The other members -/

theorem Contained.flush {l : Logger} (h : l.Contained) : l.flush.2.Contained := by
  unfold Logger.flush
  cases l.async with
  | none =>
      simp only [h.loggerFlush]
      exact h.flushed
  | some link => exact ⟨h.stdOnly, h.returns⟩

theorem foreachPopLoop_contained (fuel : ℕ) (messages : CircularQ Record) {l : Logger}
    (h : l.Contained) :
    (Backtracer.foreachPopLoop Logger.sinkIt fuel messages l).2.2.Contained := by
  induction fuel generalizing messages l with
  | zero => exact h
  | succ fuel ih =>
      have hsink := (h.sinkIt messages.front).1
      rw [Backtracer.foreachPopLoop]
      split_ifs
      · exact h
      · rcases hl : l.sinkIt messages.front with ⟨_ | thrown, l'⟩
        · rw [hl] at hsink
          exact ih _ hsink
        · rw [hl] at hsink
          exact hsink

theorem Contained.andThen {ε : Type} {o : Outcome Logger ε} {next : Logger → Outcome Logger ε}
    (h : o.2.Contained) (hnext : ∀ l, l.Contained → (next l).2.Contained) :
    (o.andThen next).2.Contained := by
  unfold Outcome.andThen
  split
  · exact hnext o.2 h
  · exact h

theorem Contained.dumpBacktrace {l : Logger} (h : l.Contained) (start stop : Stamp) :
    (l.dumpBacktrace start stop).2.Contained := by
  unfold Logger.dumpBacktrace
  split_ifs
  · refine (h.sinkIt _).1.andThen fun l₁ h₁ => Contained.andThen ?_ fun l₂ h₂ => (h₂.sinkIt _).1
    have hloop := foreachPopLoop_contained l₁.tracer.messages.maxItems l₁.tracer.messages h₁
    exact ⟨hloop.stdOnly, hloop.returns⟩
  · exact h

/-- `executor_callback` returns if `sink_it_` does. -/
theorem Contained.executorCallback {l : Logger} (h : l.Contained) (msg : Record)
    (logEnabled tracebackEnabled : Bool) :
    let called := l.executorCallback msg logEnabled tracebackEnabled
    called.2.Contained ∧
      called.2.reportCount + l.failureCount = l.reportCount + called.2.failureCount ∧
      (called.1 = none ↔ (logEnabled = true → l.canHandOn = true)) := by
  obtain ⟨hcontained, haccount, hreturns⟩ :
      let sunk := if logEnabled then l.sinkIt msg else (none, l)
      sunk.2.Contained ∧
        sunk.2.reportCount + l.failureCount = l.reportCount + sunk.2.failureCount ∧
        (sunk.1 = none ↔ (logEnabled = true → l.canHandOn = true)) := by
    cases logEnabled with
    | false => exact ⟨h, rfl, iff_of_true rfl nofun⟩
    | true => simpa using h.sinkIt msg
  intro called
  cases hsunk : (if logEnabled then l.sinkIt msg else (none, l)).1 with
  | none =>
      have hcalled : called = (none, if tracebackEnabled then
          (if logEnabled then l.sinkIt msg else (none, l)).2.pushTrace msg
          else (if logEnabled then l.sinkIt msg else (none, l)).2) :=
        Outcome.andThen_returned hsunk _
      rw [hcalled]
      cases tracebackEnabled with
      | false => exact ⟨hcontained, haccount, iff_of_true rfl (hreturns.mp hsunk)⟩
      | true =>
          exact ⟨⟨hcontained.stdOnly, hcontained.returns⟩, haccount,
            iff_of_true rfl (hreturns.mp hsunk)⟩
  | some stop =>
      have hcalled : called = (some stop, (if logEnabled then l.sinkIt msg else (none, l)).2) :=
        Outcome.andThen_threw hsunk _
      rw [hcalled]
      rw [hsunk] at hreturns
      exact ⟨hcontained, haccount, hreturns⟩

end Logger

/-! ## Runs -/

/-- Everything that can happen to a logger and the executors of its log
statements. -/
inductive Action
  -- log statements
  | log (call : LogCall)
  | op (o : ExecutorOp)
  | destroy (i : ℕ)
  -- other members
  | flush
  | dumpBacktrace (start stop : Logger.Stamp)
  | setLevel (lvl : Level)
  | flushOn (lvl : Level)
  | enableBacktrace (size : ℕ) (allocation : Option Thrown)
  | disableBacktrace
  /-- A worker handles the `k`-th message posted. -/
  | backend (k : ℕ)
  /-- The last owner of the thread pool lets go of it. -/
  | poolDestroyed

namespace World

/-- The executors and the callbacks stay as they are. -/
def onLogger (f : Logger → Outcome Logger Stop) (w : World) : Outcome World Stop :=
  (f w.logger).within fun l => { w with logger := l }

def act (w : World) : Action → Outcome World Stop
  | .log call => (w.log call).orWaits
  | .op o => (w.op o).orWaits
  | .destroy i => w.destroy i
  | .flush => w.onLogger Logger.flush
  | .dumpBacktrace start stop => w.onLogger (Logger.dumpBacktrace start stop)
  | .setLevel lvl => w.onLogger fun l => (none, { l with level := lvl })
  | .flushOn lvl => w.onLogger fun l => (none, { l with flushLevel := lvl })
  | .enableBacktrace size allocation =>
      w.onLogger fun l =>
        ((l.tracer.enable size allocation).within fun tracer => { l with tracer }).orWaits
  | .disableBacktrace => w.onLogger fun l => (none, { l with tracer := l.tracer.disable })
  | .backend k =>
      w.onLogger fun l =>
        match l.async.bind fun link => link.posted[k]? with
        | some msg => (l.backend msg).orWaits
        | none => (none, l)
  | .poolDestroyed =>
      w.onLogger fun l =>
        (none, { l with async := l.async.map fun link => { link with poolAlive := false } })

/-- A logger before its first log statement. -/
def start (l : Logger) : World := ⟨l, [], []⟩

end World

/-- The step is one of a log statement. -/
def Action.ofStatement : Action → Bool
  | .log _ => true
  | .op _ => true
  | .destroy _ => true
  | _ => false

/-- What formatting the message throws, if it comes to that. -/
def Logger.formatError (l : Logger) (call : LogCall) : Option Thrown :=
  match l.enabledFor call, call.message with
  | true, .formatted (.error thrown) => some thrown
  | _, _ => none

def Action.formatError (w : World) : Action → Option Thrown
  | .log call => w.logger.formatError call
  | _ => none

/-- No `std::exception` gets to the caller, a step that only meets such
exceptions ends normally, and each of them, whether thrown by a sink or by the
formatting, was reported. -/
structure Safe (w : World) (a : Action) : Prop where
  contained : ∀ what, (w.act a).1 ≠ some (.threw (.std what))
  normal : a.formatError w ≠ some .other → (w.act a).1 = none
  reported : (w.act a).2.logger.reportCount + w.logger.failureCount =
    w.logger.reportCount + (w.act a).2.logger.failureCount +
      (a.formatError w).toList.length

/-- The step does not destroy an executor whose message cannot be handed on. -/
def Deliverable (w : World) (a : Action) : Prop :=
  ∀ i ctx, a = .destroy i → w.executor i = some ctx → ctx.logEnabled = true →
    w.logger.canHandOn = true

/-! ## One step -/

/-- What every step keeps: the logger is contained, and the side buffers can be
written to. -/
structure Mergeable (w : World) : Prop where
  contained : w.logger.Contained
  buffers : ∀ i ctx, w.executor i = some ctx → ∃ m, ctx.msg.paramsBuffer = Json.ofMap m

theorem mergeable_start {l : Logger} (h : l.Contained) : Mergeable (World.start l) :=
  ⟨h, fun i ctx hctx => by simp [World.executor, World.start] at hctx⟩

/-- `log` reports what formatting throws, and rethrows only what is not a
`std::exception`. -/
theorem Logger.Contained.log {l : Logger} (h : l.Contained) (place : Addr) (call : LogCall) :
    (l.log place call).2.Contained ∧
      (l.log place call).2.failureCount = l.failureCount ∧
      (l.log place call).2.reportCount = l.reportCount + (l.formatError call).toList.length ∧
      ((∃ e, (l.log place call).1 = .ok e ∧
          ∀ ctx, e = some ctx → ctx.msg.paramsBuffer = Json.ofMap OrdMap.empty) ∨
        (l.formatError call = some .other ∧ (l.log place call).1 = .error .other)) := by
  rcases l.log_cases place call with ⟨hdis, hl⟩ | ⟨payload, hen, hpayload, hl⟩ |
    ⟨thrown, hen, -, hmsg, hl⟩
  · have hnone : l.formatError call = none := by rw [Logger.formatError, hdis]
    rw [hl, hnone]
    exact ⟨h, rfl, rfl, .inl ⟨none, rfl, by simp⟩⟩
  · have hnone : l.formatError call = none := by
      rw [Logger.formatError, hen]
      unfold LogCall.payload at hpayload
      split at hpayload <;> simp_all
    rw [hl, hnone]
    refine ⟨h, rfl, rfl, .inl ⟨_, rfl, fun ctx hctx => ?_⟩⟩
    obtain rfl := Option.some.inj hctx
    exact (Context.Holds.new place (l.callbackFor call payload) rfl).buffer
  · have hsome : l.formatError call = some thrown := by rw [Logger.formatError, hen, hmsg]
    rw [hl, hsome]
    cases thrown with
    | std what =>
        simp only [loggerCatch, h.returns.call]
        refine ⟨⟨h.stdOnly, h.returns⟩, rfl, ?_, .inl ⟨none, rfl, by simp⟩⟩
        simp [Logger.reportCount]
    | other =>
        simp only [loggerCatch, h.returns.call, Outcome.andThen]
        refine ⟨⟨h.stdOnly, h.returns⟩, rfl, ?_, .inr ⟨trivial, trivial⟩⟩
        simp [Logger.reportCount]

/-- `log` as a step of the world. -/
theorem Mergeable.log {w : World} (hw : Mergeable w) (call : LogCall) :
    Mergeable (w.log call).2 ∧ Safe w (.log call) := by
  obtain ⟨hcontained, hfailures, hreports, hresult⟩ := hw.contained.log w.executors.length call
  rcases hl : w.logger.log w.executors.length call with ⟨result, l'⟩
  rw [hl] at hcontained hfailures hreports hresult
  rcases hresult with ⟨e, hok, hbuffer⟩ | ⟨hother, herr⟩
  · obtain rfl : result = .ok e := hok
    have hlog : w.log call = (none, { w with logger := l', executors := w.executors ++ [e] }) := by
      rw [World.log, hl]
    refine ⟨⟨by rw [hlog]; exact hcontained, fun i ctx hctx => ?_⟩, ?_, ?_, ?_⟩
    · rw [hlog, World.executor, getD_append_one] at hctx
      split_ifs at hctx
      · exact ⟨_, hbuffer ctx hctx⟩
      · exact hw.buffers i ctx hctx
    · simp [World.act, Outcome.orWaits, hlog]
    · simp [World.act, Outcome.orWaits, hlog]
    · simp only [World.act, Outcome.orWaits, hlog, hfailures, hreports, Action.formatError]
      omega
  · obtain rfl : result = .error .other := herr
    have hlog : w.log call = (some .other, { w with logger := l' }) := by
      rw [World.log, hl]
    refine ⟨⟨by rw [hlog]; exact hcontained, by rw [hlog]; exact hw.buffers⟩, ?_, ?_, ?_⟩
    · simp [World.act, Outcome.orWaits, hlog]
    · intro hne
      exact absurd hother hne
    · simp only [World.act, Outcome.orWaits, hlog, hfailures, hreports, Action.formatError]
      omega

/-- Calls and moves never throw. -/
theorem Mergeable.op {w : World} (hw : Mergeable w) (o : ExecutorOp) :
    Mergeable (w.op o).2 ∧ Safe w (.op o) := by
  cases o with
  | params i p =>
      have hcall : ∃ e, (w.executor i).call p = (none, e) ∧
          ∀ ctx, e = some ctx → ∃ m, ctx.msg.paramsBuffer = Json.ofMap m := by
        cases hexec : w.executor i with
        | none => exact ⟨none, rfl, by simp⟩
        | some ctx =>
            obtain ⟨m, hm⟩ := hw.buffers i ctx hexec
            refine ⟨some { ctx with msg := { ctx.msg with
              paramsBuffer := Json.ofMap (m.insertAll p.items) } }, ?_, fun ctx' hctx' => ?_⟩
            · rw [Executor.call, hm, setMembers_ofMap]
              rfl
            · obtain rfl := Option.some.inj hctx'
              exact ⟨_, rfl⟩
      obtain ⟨e, hcall, hbuffer⟩ := hcall
      have hop : w.op (.params i p) = (none, { w with executors := w.executors.set i e }) := by
        rw [World.op, hcall]
        rfl
      refine ⟨⟨by rw [hop]; exact hw.contained, fun j ctx hctx => ?_⟩, ?_, ?_, ?_⟩
      · rw [hop, World.executor, getD_set_none] at hctx
        split_ifs at hctx
        · exact hbuffer ctx hctx
        · exact hw.buffers j ctx hctx
      · simp [World.act, Outcome.orWaits, hop]
      · simp [World.act, Outcome.orWaits, hop]
      · simp [World.act, Outcome.orWaits, hop, Action.formatError]
  | move i =>
      refine ⟨⟨hw.contained, fun j ctx hctx => ?_⟩, ?_, ?_, ?_⟩
      · rw [World.op, World.executor] at hctx
        simp only [getD_append_one, getD_set_none] at hctx
        split_ifs at hctx
        · obtain ⟨ctx', hctx', rfl⟩ := Option.map_eq_some_iff.mp hctx
          exact hw.buffers i ctx' hctx'
        · exact hw.buffers j ctx hctx
      · simp [World.act, Outcome.orWaits, World.op]
      · simp [World.act, Outcome.orWaits, World.op]
      · simp [World.act, Outcome.orWaits, World.op, Action.formatError]

/-- Destroying an executor is safe if and only if its message can be handed
on. -/
theorem Mergeable.destroy {w : World} (hw : Mergeable w) (i : ℕ) :
    Mergeable (w.destroy i).2 ∧ (Safe w (.destroy i) ↔ Deliverable w (.destroy i)) := by
  cases hexec : w.executor i with
  | none =>
      have hnone := destroy_none hexec
      rw [hnone]
      refine ⟨hw, iff_of_true ⟨?_, ?_, ?_⟩ ?_⟩
      · simp [World.act, hnone]
      · simp [World.act, hnone]
      · simp [World.act, hnone, Action.formatError]
      · rintro j ctx ⟨⟩ hctx
        exact absurd hctx (by simp [hexec])
  | some ctx =>
      obtain ⟨hcontained, haccount, hreturns⟩ := hw.contained.executorCallback (ctx.finalMsg i)
        ctx.logEnabled ctx.tracebackEnabled
      have hdestroy : w.destroy i = ((w.logger.executorCallback (ctx.finalMsg i) ctx.logEnabled
          ctx.tracebackEnabled).within fun l =>
            { logger := l
              executors := w.executors.set i none
              callbacks := w.callbacks ++
                [⟨ctx.finalMsg i, ctx.logEnabled, ctx.tracebackEnabled⟩] }) := by
        rw [World.destroy, hexec]
      refine ⟨⟨by rw [hdestroy]; exact hcontained, fun j ctx' hctx' => ?_⟩, ?_⟩
      · rw [hdestroy, World.executor] at hctx'
        simp only [Outcome.within, getD_set_none] at hctx'
        split_ifs at hctx'
        exact hw.buffers j ctx' hctx'
      · constructor
        · rintro ⟨-, hnormal, -⟩ j ctx' ⟨⟩ hctx' hlog
          obtain rfl : ctx = ctx' := Option.some.inj (hexec.symm.trans hctx')
          have hact := hnormal (by simp [Action.formatError])
          rw [World.act, hdestroy] at hact
          exact hreturns.mp hact hlog
        · intro hdel
          have hnormal := hreturns.mpr fun hlog => hdel i ctx rfl hexec hlog
          have hact : (w.act (.destroy i)).1 = none := by
            rw [World.act, hdestroy]
            exact hnormal
          refine ⟨by simp [hact], fun _ => hact, ?_⟩
          rw [World.act, hdestroy]
          simpa [Outcome.within, Action.formatError] using haccount

/-- Every action keeps what the statements need. -/
theorem Mergeable.act {w : World} (hw : Mergeable w) (a : Action) : Mergeable (w.act a).2 := by
  have hon (f : Logger → Outcome Logger Stop) (hf : (f w.logger).2.Contained) :
      Mergeable (w.onLogger f).2 := ⟨hf, hw.buffers⟩
  have hsame (l : Logger) (hsinks : l.sinks = w.logger.sinks)
      (hhandler : l.errHandler = w.logger.errHandler) : l.Contained :=
    ⟨hsinks ▸ hw.contained.stdOnly, hhandler ▸ hw.contained.returns⟩
  cases a with
  | log call => exact (hw.log call).1
  | op o => exact (hw.op o).1
  | destroy i => exact (hw.destroy i).1
  | flush => exact hon _ hw.contained.flush
  | dumpBacktrace start stop => exact hon _ (hw.contained.dumpBacktrace start stop)
  | setLevel lvl => exact hon _ (hsame _ rfl rfl)
  | flushOn lvl => exact hon _ (hsame _ rfl rfl)
  | enableBacktrace size allocation => exact hon _ (hsame _ rfl rfl)
  | disableBacktrace => exact hon _ (hsame _ rfl rfl)
  | poolDestroyed => exact hon _ (hsame _ rfl rfl)
  | backend k =>
      apply hon
      split
      · next msg _ =>
          rw [hw.contained.backend]
          exact hw.contained.handled msg
      · exact hw.contained

/-- A step of a log statement is safe exactly when it does not have to post where
nothing can be posted. -/
theorem step_safe_iff {w : World} (hw : Mergeable w) (a : Action) :
    (a.ofStatement = true → Safe w a) ↔ Deliverable w a := by
  have hother (h : ∀ i, a ≠ .destroy i) : Deliverable w a :=
    fun i _ heq => absurd heq (h i)
  cases a with
  | log call => exact iff_of_true (fun _ => (hw.log call).2) (hother (by simp))
  | op o => exact iff_of_true (fun _ => (hw.op o).2) (hother (by simp))
  | destroy i => simpa [Action.ofStatement] using (hw.destroy i).2
  | _ => exact iff_of_true (by simp [Action.ofStatement]) (hother (by simp))

/-! ## Whole runs -/

/-- The steps of the run of a logger on `actions`. -/
def World.steps (l : Logger) (actions : List Action) : List (World × Action) :=
  Runs.trace (fun w a => (w.act a).2) (World.start l) actions

/-- In a run of a logger all log statements are safe if and only if no executor
is destroyed with an enabled message that its logger cannot hand on: the logger
is asynchronous, and its thread pool is gone, no `shared_ptr` owns the logger, or the
statement waits for room in a queue without a place. -/
theorem log_statements_safe_iff {l : Logger} (hl : l.Contained) (actions : List Action) :
    (∀ p ∈ World.steps l actions, p.2.ofStatement = true → Safe p.1 p.2) ↔
      ∀ p ∈ World.steps l actions, Deliverable p.1 p.2 :=
  Runs.forall_trace_congr (motive := Mergeable) (fun _ a hw => hw.act a)
    (fun _ a hw => step_safe_iff hw a) (mergeable_start hl) actions

/-- A sink that is full: every `log` call throws. -/
def fullSink : Sink where
  level := .trace
  respond _ event :=
    match event with
    | .log _ => some (.std (ascii "No space left on device"))
    | .flush => none

/-- An asynchronous logger in front of a full sink. -/
def fullAsyncLogger : Logger :=
  { plainLogger with
    sinks := [⟨fullSink, []⟩]
    async := some
      { poolAlive := true
        shared := true
        overflowPolicy := .block
        qMaxItems := 1
        posted := [] } }

theorem contained_fullAsyncLogger : fullAsyncLogger.Contained where
  stdOnly := by
    intro s hs seen event
    obtain rfl := List.mem_singleton.mp hs
    cases event <;> simp [fullSink]
  returns := by simp [ErrHandler.Returns, fullAsyncLogger, plainLogger]

/-- One log statement. -/
def oneStatement : List Action := [.log (infoCall (.text (ascii "x"))), .destroy 0]

theorem log_statements_safe_fullSink :
    (∀ p ∈ World.steps fullAsyncLogger (oneStatement ++ [.backend 0]),
      p.2.ofStatement = true → Safe p.1 p.2) ↔
    ∀ p ∈ World.steps fullAsyncLogger (oneStatement ++ [.backend 0]), Deliverable p.1 p.2 :=
  log_statements_safe_iff contained_fullAsyncLogger (oneStatement ++ [.backend 0])

/-- Once the thread pool is gone, the destructor of an executor throws. -/
theorem log_statement_throws_without_pool :
    ¬ ∀ (l : Logger), l.Contained → ∀ (actions : List Action),
      ∀ p ∈ World.steps l actions, p.2.ofStatement = true → Safe p.1 p.2 := by
  intro h
  have hdestroy := h fullAsyncLogger contained_fullAsyncLogger (.poolDestroyed :: oneStatement) _
    (List.mem_cons_of_mem _ (List.mem_cons_of_mem _ List.mem_cons_self)) rfl
  exact hdestroy.contained (ascii "async log: thread pool doesn't exist anymore") rfl

end Structlog
