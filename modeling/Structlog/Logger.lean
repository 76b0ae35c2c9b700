import Structlog.Backtracer
import Structlog.ThreadPool

/-!
# Sinks and loggers

`Logger` is the class `logger`, and `async_logger` where it has a `PoolLink`.
`sink_it_` and `flush_` are virtual: `Logger.sinkIt` and `Logger.flush` choose
by the link, and the bodies of the two classes are below them under their own
names.  What an asynchronous logger posts is kept in order in `posted`; the
queue itself is the subject of `ThreadPool`.  Here a post only has to know whether
it will ever return: with the block policy it waits for room, which comes unless the
queue has no place at all (`PoolLink.neverRoom`, `Pool.full_of_new_full`).

A sink is what it does: for every `log` and `flush` call, whether it throws,
given the calls before.  The error handler likewise.  With these the loops over
the sinks can be told apart only by the events the sinks have seen and by the
texts that were reported, and `eachSink_spec` says what both are.
-/

namespace Structlog

open Lib

/-! ## Sinks -/

inductive SinkEvent
  | log (msg : Record)
  | flush

/-- A sink: its level, and what a call throws after the calls seen so far. -/
structure Sink where
  level : Level
  respond : List SinkEvent → SinkEvent → Option Thrown

def Sink.shouldLog (sink : Sink) (msgLevel : Level) : Bool := sink.level.toNat ≤ msgLevel.toNat

/-- A sink and the calls it has received. -/
structure SinkState where
  sink : Sink
  seen : List SinkEvent

def SinkState.receive (event : SinkEvent) (s : SinkState) : Outcome SinkState :=
  (s.sink.respond s.seen event, { s with seen := s.seen ++ [event] })

/-! ## The error handler -/

/-- `custom_err_handler_` and the texts given to `err_handler_` so far. -/
structure ErrHandler where
  custom : Option (List Bytes → Bytes → Option Thrown)
  reported : List Bytes

/-- `err_handler_`.  The default one prints and returns. -/
def ErrHandler.call (msg : Bytes) (h : ErrHandler) : Outcome ErrHandler :=
  (h.custom.bind fun handler => handler h.reported msg, { h with reported := h.reported ++ [msg] })

/-- The text that `SPDLOG_LOGGER_CATCH` reports for a `std::exception`. -/
def report (location : SourceLoc) (what : Bytes) : Bytes :=
  match location.filename with
  | some filename =>
      what ++ ascii " [" ++ filename ++ ascii "(" ++ decimalInt location.line ++ ascii ")]"
  | none => what

/-- `SPDLOG_LOGGER_CATCH(location)` after a try block that ended in `thrown`. -/
def loggerCatch (location : SourceLoc) (thrown : Option Thrown) (h : ErrHandler) :
    Outcome ErrHandler :=
  match thrown with
  | none => (none, h)
  | some (.std what) => h.call (report location what)
  | some .other =>
      (h.call (ascii "Rethrowing unknown exception in logger")).andThen fun h' => (some .other, h')

/-- The loop over the sinks in `sink_it_`, `flush_`, `backend_sink_it_` and
`backend_flush_`: the event goes to each sink that is `wanted`, in a try block
of its own. -/
def eachSink (event : SinkEvent) (wanted : Sink → Bool) (location : SourceLoc) :
    List SinkState → ErrHandler → Outcome (List SinkState × ErrHandler)
  | [], h => (none, [], h)
  | s :: rest, h =>
      if wanted s.sink then
        let called := s.receive event
        match loggerCatch location called.1 h with
        | (some thrown, h') => (some thrown, called.2 :: rest, h')
        | (none, h') =>
            (eachSink event wanted location rest h').within fun r => (called.2 :: r.1, r.2)
      else (eachSink event wanted location rest h).within fun r => (s :: r.1, r.2)

/-! ### What the loop does

With sinks that throw nothing but `std::exception` and a handler that returns,
every wanted sink gets the event and every failure is reported. -/

def Sink.StdOnly (sink : Sink) : Prop := ∀ seen event, sink.respond seen event ≠ some .other

def ErrHandler.Returns (h : ErrHandler) : Prop :=
  ∀ handler ∈ h.custom, ∀ before msg, handler before msg = none

/-- A sink after the loop. -/
def SinkState.deliver (event : SinkEvent) (wanted : Sink → Bool) (s : SinkState) : SinkState :=
  if wanted s.sink then { s with seen := s.seen ++ [event] } else s

theorem SinkState.sink_deliver (event : SinkEvent) (wanted : Sink → Bool) (s : SinkState) :
    (s.deliver event wanted).sink = s.sink := by
  unfold SinkState.deliver
  split_ifs <;> rfl

/-- What is reported for a sink. -/
def SinkState.failure (event : SinkEvent) (wanted : Sink → Bool) (location : SourceLoc)
    (s : SinkState) : Option Bytes :=
  if wanted s.sink then
    match s.sink.respond s.seen event with
    | some (.std what) => some (report location what)
    | _ => none
  else none

theorem ErrHandler.Returns.call {h : ErrHandler} (hret : h.Returns) (msg : Bytes) :
    h.call msg = (none, { h with reported := h.reported ++ [msg] }) := by
  have hnone : (h.custom.bind fun handler => handler h.reported msg) = none :=
    Option.bind_eq_none_iff.mpr fun handler hmem => hret handler hmem _ _
  rw [ErrHandler.call, hnone]

/-- Sinks that throw nothing else are passed. -/
theorem eachSink_append (event : SinkEvent) (wanted : Sink → Bool) (location : SourceLoc)
    {sinks : List SinkState} (hstd : ∀ s ∈ sinks, s.sink.StdOnly) (rest : List SinkState)
    {h : ErrHandler} (hret : h.Returns) :
    eachSink event wanted location (sinks ++ rest) h =
      (eachSink event wanted location rest { h with
        reported := h.reported ++ sinks.filterMap (·.failure event wanted location) }).within
          fun r => (sinks.map (·.deliver event wanted) ++ r.1, r.2) := by
  induction sinks generalizing h with
  | nil => simp [Outcome.within]
  | cons s sinks ih =>
      have hs := hstd s List.mem_cons_self s.seen event
      have hlater := fun s' hs' => hstd s' (List.mem_cons_of_mem _ hs')
      rw [List.cons_append, eachSink]
      by_cases hw : wanted s.sink = true
      · cases hthrown : s.sink.respond s.seen event with
        | none =>
            simp [hw, SinkState.receive, hthrown, loggerCatch, ih hlater hret, Outcome.within,
              SinkState.deliver, SinkState.failure]
        | some thrown =>
            cases thrown with
            | other => exact absurd hthrown hs
            | std what =>
                have hret' : ErrHandler.Returns
                    { h with reported := h.reported ++ [report location what] } := hret
                simp [hw, SinkState.receive, hthrown, loggerCatch, hret.call, ih hlater hret',
                  Outcome.within, SinkState.deliver, SinkState.failure]
      · simp [hw, ih hlater hret, Outcome.within, SinkState.deliver, SinkState.failure]

theorem eachSink_spec (event : SinkEvent) (wanted : Sink → Bool) (location : SourceLoc)
    (sinks : List SinkState) (h : ErrHandler) (hstd : ∀ s ∈ sinks, s.sink.StdOnly)
    (hret : h.Returns) :
    eachSink event wanted location sinks h =
      (none, sinks.map (·.deliver event wanted),
        { h with
          reported := h.reported ++ sinks.filterMap (·.failure event wanted location) }) := by
  have happend := eachSink_append event wanted location hstd [] hret
  rw [List.append_nil] at happend
  rw [happend, eachSink]
  simp only [Outcome.within, List.append_nil]

/-! ## The logger -/

/-- An `async_msg` for this logger; `terminate` belongs to the pool. -/
inductive AsyncMsg
  | log (msg : Record)
  | flush

/-- What an `async_logger` has more than a `logger`. -/
structure PoolLink where
  /-- `thread_pool_.lock()` yields a pool. -/
  poolAlive : Bool
  /-- The logger is owned by a `shared_ptr`, as `shared_from_this` needs. -/
  shared : Bool
  overflowPolicy : OverflowPolicy
  /-- What the queue of the pool was made with. -/
  qMaxItems : ℕ
  posted : List AsyncMsg

/-- A queue that is full from the start never gets room. -/
def PoolLink.neverRoom (link : PoolLink) : Bool :=
  (CircularQ.new link.qMaxItems : CircularQ (PoolMsg AsyncMsg)).full

/-- A post to the pool returns: the pool exists, a `shared_ptr` owns the logger, and the
queue takes the message sooner or later. -/
def PoolLink.canTake (link : PoolLink) : Bool :=
  link.poolAlive && link.shared && !(link.overflowPolicy = .block && link.neverRoom)

structure Logger where
  name : Bytes
  level : Level
  flushLevel : Level
  sinks : List SinkState
  errHandler : ErrHandler
  tracer : Backtracer
  async : Option PoolLink

namespace Logger

def shouldLog (l : Logger) (msgLevel : Level) : Bool := l.level.toNat ≤ msgLevel.toNat

def shouldFlush (l : Logger) (msg : Record) : Bool :=
  l.flushLevel.toNat ≤ msg.level.toNat && msg.level ≠ .off

/-- A loop over the sinks of this logger. -/
def overSinks (event : SinkEvent) (wanted : Sink → Bool) (location : SourceLoc) (l : Logger) :
    Outcome Logger :=
  (eachSink event wanted location l.sinks l.errHandler).within fun r =>
    { l with sinks := r.1, errHandler := r.2 }

/-! ### `logger` -/

/-- `logger::flush_`. -/
def loggerFlush (l : Logger) : Outcome Logger := l.overSinks .flush (fun _ => true) {}

/-- `logger::sink_it_`. -/
def loggerSinkIt (msg : Record) (l : Logger) : Outcome Logger :=
  (l.overSinks (.log msg) (fun sink => sink.shouldLog msg.level) msg.source).andThen fun l' =>
    if l'.shouldFlush msg then l'.loggerFlush else (none, l')

/-! ### `async_logger` -/

/-- `async_logger::backend_flush_`. -/
def backendFlush (l : Logger) : Outcome Logger := l.overSinks .flush (fun _ => true) {}

/-- `async_logger::backend_sink_it_`. -/
def backendSinkIt (msg : Record) (l : Logger) : Outcome Logger :=
  (l.overSinks (.log msg) (fun sink => sink.shouldLog msg.level) msg.source).andThen fun l' =>
    if l'.shouldFlush msg then l'.backendFlush else (none, l')

/-- What `process_next_msg_` does with a message of this logger, which it reads
out of its own `async_msg`. -/
def backend (msg : AsyncMsg) (l : Logger) : Outcome Logger :=
  match msg with
  | .log m => l.backendSinkIt (LogMsgBuffer.fetched 0 1 m)
  | .flush => l.backendFlush

/-- Post to the pool, if there still is one: `shared_from_this` comes second.  With the
block policy `enqueue` waits until the workers have made room. -/
def post (gone : Bytes) (msg : AsyncMsg) (link : PoolLink) : Outcome PoolLink Stop :=
  if link.poolAlive = false then (some (.threw (spdlogEx gone)), link)
  else if link.shared = false then (some (.threw (.std (ascii "bad_weak_ptr"))), link)
  else if link.overflowPolicy = .block ∧ link.neverRoom = true then (some .waits, link)
  else (none, { link with posted := link.posted ++ [msg] })

/-- `async_logger::sink_it_`.  `post_log` makes an `async_msg` of a deep copy,
which the queue moves in and out of a slot. -/
def asyncSinkIt (msg : Record) (link : PoolLink) : Outcome PoolLink Stop :=
  post (ascii "async log: thread pool doesn't exist anymore") (.log msg) link

/-- `async_logger::flush_`. -/
def asyncFlush (link : PoolLink) : Outcome PoolLink Stop :=
  post (ascii "async flush: thread pool doesn't exist anymore") .flush link

/-! ### Virtual calls -/

def sinkIt (msg : Record) (l : Logger) : Outcome Logger Stop :=
  match l.async with
  | none => (l.loggerSinkIt msg).orWaits
  | some link => (asyncSinkIt msg link).within fun link' => { l with async := some link' }

def flush (l : Logger) : Outcome Logger Stop :=
  match l.async with
  | none => l.loggerFlush.orWaits
  | some link => (asyncFlush link).within fun link' => { l with async := some link' }

/-- The time and the thread that `log_msg`'s constructor asks for. -/
structure Stamp where
  time : ℤ
  threadId : ℕ

/-- A line of `dump_backtrace_`'s own. -/
def dumpLine (l : Logger) (stamp : Stamp) (text : Bytes) : Record :=
  .new stamp.time stamp.threadId {} l.name .info text

/-- `dump_backtrace_`; the two lines around the messages are stamped when they
are made. -/
def dumpBacktrace (start stop : Stamp) (l : Logger) : Outcome Logger Stop :=
  if l.tracer.enabled then
    (l.sinkIt
        (l.dumpLine start (ascii "****************** Backtrace Start ******************"))).andThen
      fun l₁ =>
        ((l₁.tracer.foreachPop sinkIt l₁).within fun r =>
          { r.2 with tracer := r.1 }).andThen fun l₂ =>
            l₂.sinkIt
              (l₂.dumpLine stop (ascii "****************** Backtrace End ********************"))
  else (none, l)

/-- `tracer_.push_back(log_msg)`. -/
def pushTrace (msg : Record) (l : Logger) : Logger := { l with tracer := l.tracer.pushBack msg }

/-- `executor_callback`. -/
def executorCallback (msg : Record) (logEnabled tracebackEnabled : Bool) (l : Logger) :
    Outcome Logger Stop :=
  (if logEnabled then l.sinkIt msg else (none, l)).andThen fun l' =>
    (none, if tracebackEnabled then l'.pushTrace msg else l')

/-! ## Contained loggers

What the results on error handling assume of a logger: its sinks throw nothing
but `std::exception` and its error handler returns. -/

structure Contained (l : Logger) : Prop where
  stdOnly : ∀ s ∈ l.sinks, s.sink.StdOnly
  returns : l.errHandler.Returns

/-- The logger after an event for its sinks. -/
def delivered (event : SinkEvent) (wanted : Sink → Bool) (location : SourceLoc) (l : Logger) :
    Logger :=
  { l with
    sinks := l.sinks.map (·.deliver event wanted)
    errHandler :=
      { l.errHandler with
        reported := l.errHandler.reported ++
          l.sinks.filterMap (·.failure event wanted location) } }

theorem Contained.delivered {l : Logger} (h : l.Contained) (event : SinkEvent)
    (wanted : Sink → Bool) (location : SourceLoc) :
    (l.delivered event wanted location).Contained where
  stdOnly s hs := by
    obtain ⟨s', hs', rfl⟩ := List.mem_map.mp hs
    exact s'.sink_deliver event wanted ▸ h.stdOnly s' hs'
  returns := h.returns

theorem Contained.overSinks {l : Logger} (h : l.Contained) (event : SinkEvent)
    (wanted : Sink → Bool) (location : SourceLoc) :
    l.overSinks event wanted location = (none, l.delivered event wanted location) := by
  rw [Logger.overSinks,
    eachSink_spec event wanted location l.sinks l.errHandler h.stdOnly h.returns]
  rfl

/-- A logger after `logger::flush_` or `async_logger::backend_flush_`. -/
def flushed (l : Logger) : Logger := l.delivered .flush (fun _ => true) {}

/-- A logger after `logger::sink_it_` or `async_logger::backend_sink_it_`. -/
def sunk (msg : Record) (l : Logger) : Logger :=
  let l' := l.delivered (.log msg) (fun sink => sink.shouldLog msg.level) msg.source
  if l'.shouldFlush msg then l'.flushed else l'

/-- A logger after an `async_msg` was handled. -/
def handled (msg : AsyncMsg) (l : Logger) : Logger :=
  match msg with
  | .log m => l.sunk m
  | .flush => l.flushed

theorem Contained.loggerFlush {l : Logger} (h : l.Contained) : l.loggerFlush = (none, l.flushed) :=
  h.overSinks _ _ _

theorem Contained.loggerSinkIt {l : Logger} (h : l.Contained) (msg : Record) :
    l.loggerSinkIt msg = (none, l.sunk msg) := by
  have hl' := h.delivered (.log msg) (fun sink => sink.shouldLog msg.level) msg.source
  rw [Logger.loggerSinkIt, h.overSinks, Logger.sunk]
  simp only [Outcome.andThen, hl'.loggerFlush]
  split_ifs <;> rfl

theorem Contained.backendSinkIt {l : Logger} (h : l.Contained) (msg : Record) :
    l.backendSinkIt msg = (none, l.sunk msg) :=
  h.loggerSinkIt msg

theorem Contained.backend {l : Logger} (h : l.Contained) (msg : AsyncMsg) :
    l.backend msg = (none, l.handled msg) := by
  cases msg with
  | log m => rw [Logger.backend, LogMsgBuffer.fetched_eq, h.backendSinkIt, Logger.handled]
  | flush => exact h.loggerFlush

theorem Contained.flushed {l : Logger} (h : l.Contained) : l.flushed.Contained :=
  h.delivered _ _ _

theorem Contained.sunk {l : Logger} (h : l.Contained) (msg : Record) : (l.sunk msg).Contained := by
  unfold Logger.sunk
  dsimp only
  split_ifs
  · exact (h.delivered _ _ _).flushed
  · exact h.delivered _ _ _

theorem Contained.handled {l : Logger} (h : l.Contained) (msg : AsyncMsg) :
    (l.handled msg).Contained := by
  cases msg with
  | log m => exact h.sunk m
  | flush => exact h.flushed

end Logger

end Structlog
