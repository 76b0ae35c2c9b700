import Structlog.LogStatements
import Structlog.ThreadPoolProgress

/-!
# The asynchronous logger refines the synchronous one

`Backend` is the thread pool together with the logger whose messages it handles.
With one worker and producers that wait for room, the worker handles the
messages in the order in which they were posted (`InOrder`), and handling a
message does to the sinks what the synchronous logger does at once
(`backend_agrees`).

Posting touches neither the sinks nor the level for flushing, and the worker
touches nothing that the front end reads.  The front end can therefore be run by
itself: `Mirror` relates an asynchronous logger to a synchronous one that is
given the same calls, and `issueAll_mirror` says that what the first posts is
what the second has done.
-/

namespace Structlog

open Lib

/-! ## One worker and no overrun -/

namespace Pool

variable {μ : Type*} {scripts : List (List (μ × OverflowPolicy))} {s s' : Pool μ}
  {queued : List (Posted μ)} {terminates : ℕ} {dropped : List (Posted μ)}

/-- One worker, and what was posted is in order: delivered, in the worker's
hands, queued. -/
structure InOrder (s : Pool μ) (queued : List (Posted μ)) : Prop where
  worker : s.workers.length = 1
  posted : s.posted = s.delivered ++ s.held ++ queued

theorem InOrder.held_eq (h : InOrder s queued) {i : ℕ} {w : Worker μ}
    (hw : s.workers[i]? = some w) :
    s.held = heldBy w ∧ ∀ w', (s.setWorker i w').held = heldBy w' := by
  obtain ⟨w₀, hworkers⟩ := List.length_eq_one_iff.mp h.worker
  rw [hworkers] at hw
  cases i with
  | zero =>
      obtain rfl : w₀ = w := by simpa using hw
      exact ⟨by simp [held, hworkers], fun w' => by simp [held, setWorker, hworkers]⟩
  | succ i => simp at hw

/-- Every step of a pool that loses nothing keeps the order. -/
theorem InOrder.step (h : InOrder s queued) (hcons : Conserved scripts s queued terminates dropped)
    (hloss : Lossless s) (hstep : s.Step s') :
    ∃ queued' terminates' dropped', Conserved scripts s' queued' terminates' dropped' ∧
      Lossless s' ∧ InOrder s' queued' := by
  have hloss' := hcons.lossless_step hloss hstep
  have hlength := hstep.length_workers.trans h.worker
  cases hstep with
  | @post p m policy rest hpending hroom =>
      have hpolicy : policy = .block :=
        hloss.pending _ (List.mem_of_getElem? hpending) (m, policy) List.mem_cons_self
      -- The post has waited for room, so nothing is pushed out of the queue.
      have hpush : BoundedFifo.push (s.q.maxItems - 1) queued m = queued ++ [m] := by
        apply BoundedFifo.push_of_room
        have hfull : s.q.toList.length ≠ s.q.maxItems - 1 := by
          intro heq
          simp [hcons.wf.full_iff.mpr heq] at hroom
          exact hroom hpolicy
        have hle := lt_of_le_of_ne hcons.wf.length_le hfull
        rw [hcons.queue, List.length_append, List.length_map] at hle
        omega
      refine ⟨_, _, _, hcons.post hpending, hloss', hlength, ?_⟩
      rw [hpush, ← List.append_assoc]
      exact congrArg (· ++ [m]) h.posted
  | @takeWork i count m hworker hempty hfront =>
      obtain ⟨queued', rfl, hcons'⟩ := hcons.takeWork hworker hempty hfront
      refine ⟨_, _, _, hcons', hloss', hlength, ?_⟩
      obtain ⟨hold, hnew⟩ := h.held_eq hworker
      have hposted := h.posted
      rw [hold] at hposted
      change s.posted = s.delivered ++ (s.setWorker i ⟨.holding (.work m), count⟩).held ++ queued'
      rw [hposted, hnew]
      simp [heldBy]
  | @takeTerminate i count hworker hempty hfront =>
      -- A terminate message is only reached behind all work.
      have hnil : queued = [] := by
        rcases hcons.front_cases hempty with ⟨_, _, _, hfront', _⟩ | ⟨_, hnil, _⟩
        · exact absurd (hfront.symm.trans hfront') (by simp)
        · exact hnil
      obtain ⟨terminates', _, hcons'⟩ := hcons.takeTerminate hworker hempty hfront
      refine ⟨_, _, _, hcons', hloss', hlength, ?_⟩
      obtain ⟨hold, hnew⟩ := h.held_eq hworker
      have hposted := h.posted
      rw [hold, hnil] at hposted
      change s.posted = s.delivered ++ (s.setWorker i ⟨.holding .terminate, count + 1⟩).held ++ []
      rw [hposted, hnew]
      simp [heldBy]
  | @deliver i count m hworker =>
      refine ⟨_, _, _, hcons.deliver hworker, hloss', hlength, ?_⟩
      obtain ⟨hold, hnew⟩ := h.held_eq hworker
      have hposted := h.posted
      rw [hold] at hposted
      change s.posted = s.delivered ++ [m] ++ (s.setWorker i ⟨.waiting, count⟩).held ++ queued
      rw [hposted, hnew]
      simp [heldBy]
  | @exit i count hworker =>
      refine ⟨_, _, _, hcons.exit hworker, hloss', hlength, ?_⟩
      obtain ⟨hold, hnew⟩ := h.held_eq hworker
      have hposted := h.posted
      rw [hold] at hposted
      change s.posted = s.delivered ++ (s.setWorker i ⟨.exited, count⟩).held ++ queued
      rw [hposted, hnew]
      simp [heldBy]
  | shutDown hnot hpending =>
      exact ⟨_, _, _, hcons.shutDown hnot hpending, hloss', hlength, h.posted⟩
  | terminate hposting hroom =>
      exact ⟨_, _, _, hcons.terminate hposting hroom, hloss', hlength, h.posted⟩
  | join hposting hexited =>
      exact ⟨_, _, _, hcons.join hposting hexited, hloss', hlength, h.posted⟩

/-! ## The order of each producer -/

/-- What a producer has posted is the first part of its script. -/
structure InScriptOrder (scripts : List (List (μ × OverflowPolicy))) (s : Pool μ) : Prop where
  order : ∀ p, s.posted.filter (fun m => m.producer = p) ++ (s.pending.getD p []).map Prod.fst =
    ((tagScripts scripts).getD p []).map Prod.fst
  own : ∀ p, ∀ post ∈ s.pending.getD p [], post.1.producer = p

theorem InScriptOrder.step (h : InScriptOrder scripts s) (hstep : s.Step s') :
    InScriptOrder scripts s' := by
  cases hstep with
  | @post p m policy rest hpending =>
      have hget : s.pending.getD p [] = (m, policy) :: rest := by
        rw [List.getD_eq_getElem?_getD, hpending, Option.getD_some]
      have hproducer : m.producer = p := by
        apply h.own p (m, policy)
        rw [hget]
        exact List.mem_cons_self
      have hlt : p < s.pending.length := (List.getElem?_eq_some_iff.mp hpending).1
      -- Only the script of the producer that has posted gets shorter.
      have hset (p' : ℕ) : (s.pending.set p rest).getD p' [] =
          if p' = p then rest else s.pending.getD p' [] := by
        simp only [List.getD_eq_getElem?_getD, List.getElem?_set]
        by_cases heq : p = p'
        · subst heq
          simp [hlt]
        · simp [heq, Ne.symm heq]
      constructor
      · intro p'
        have horder := h.order p'
        change (s.posted ++ [m]).filter _ ++ ((s.pending.set p rest).getD p' []).map _ = _
        rw [hset, List.filter_append]
        by_cases heq : p' = p
        · subst heq
          rw [hget] at horder
          simpa [hproducer] using horder
        · have hne : m.producer ≠ p' := by
            intro heq'
            exact heq (heq'.symm.trans hproducer)
          simpa [heq, hne] using horder
      · intro p'
        change ∀ post ∈ (s.pending.set p rest).getD p' [], _
        rw [hset]
        split_ifs with heq
        · subst heq
          intro post hpost
          apply h.own p' post
          rw [hget]
          exact List.mem_cons_of_mem _ hpost
        · exact h.own p'
  | takeWork => exact ⟨h.order, h.own⟩
  | takeTerminate => exact ⟨h.order, h.own⟩
  | deliver => exact ⟨h.order, h.own⟩
  | exit => exact ⟨h.order, h.own⟩
  | shutDown => exact ⟨h.order, h.own⟩
  | terminate => exact ⟨h.order, h.own⟩
  | join => exact ⟨h.order, h.own⟩

end Pool

/-! ## The backend -/

/-- A pool and the logger all its messages belong to. -/
structure Backend where
  pool : Pool AsyncMsg
  logger : Logger

namespace Backend

/-- The producers' messages, which wait for room. -/
def blocking (scripts : List (List AsyncMsg)) : List (List (AsyncMsg × OverflowPolicy)) :=
  scripts.map fun script => script.map fun msg => (msg, .block)

/-- A pool of one worker for the messages of `l`. -/
def new (qMaxItems : ℕ) (l : Logger) (scripts : List (List AsyncMsg)) : Except Thrown Backend :=
  (Pool.new qMaxItems 1 (blocking scripts)).map fun pool => ⟨pool, l⟩

/-- The message that the `i`-th worker is about to hand to the backend. -/
def taken (b : Backend) (i : ℕ) : Option AsyncMsg :=
  match b.pool.workers[i]? with
  | some ⟨.holding (.work m), _⟩ => some m.body
  | _ => none

/-- A step of the pool; handling a message is the logger's part of it. -/
def act (b : Backend) (a : PoolAct) : Option Backend :=
  (b.pool.act a).map fun pool =>
    match a with
    | .process i =>
        match b.taken i with
        | some msg => ⟨pool, (b.logger.backend msg).2⟩
        | none => ⟨pool, b.logger⟩
    | _ => ⟨pool, b.logger⟩

def run (b : Backend) (acts : List PoolAct) : Option Backend := Runs.partialRun act b acts

end Backend

/-- What has been posted to a pool that exists, each message waiting for room. -/
def PoolLink.waiting (qMaxItems : ℕ) (posted : List AsyncMsg) : PoolLink where
  poolAlive := true
  shared := true
  overflowPolicy := .block
  qMaxItems := qMaxItems
  posted := posted

namespace Logger

/-- What a synchronous logger does where an asynchronous one posts. -/
def perform (msg : AsyncMsg) (l : Logger) : Logger :=
  match msg with
  | .log m => (l.sinkIt m).2
  | .flush => l.flush.2

def performAll (msgs : List AsyncMsg) (l : Logger) : Logger :=
  msgs.foldl (fun l msg => l.perform msg) l

/-- The logger as a plain `logger`. -/
def synchronous (l : Logger) : Logger := { l with async := none }

/-- The logger as an `async_logger` in front of a pool that exists. -/
def asynchronous (qMaxItems : ℕ) (l : Logger) : Logger :=
  { l with async := some (.waiting qMaxItems []) }

/-- What the events of the sinks depend on. -/
structure SameSinks (a b : Logger) : Prop where
  sinks : a.sinks = b.sinks
  flushLevel : a.flushLevel = b.flushLevel

theorem SameSinks.delivered {a b : Logger} (h : SameSinks a b) (event : SinkEvent)
    (wanted : Sink → Bool) (location : SourceLoc) :
    SameSinks (a.delivered event wanted location) (b.delivered event wanted location) :=
  ⟨congrArg (List.map _) h.sinks, h.flushLevel⟩

theorem SameSinks.handled {a b : Logger} (h : SameSinks a b) (msg : AsyncMsg) :
    SameSinks (a.handled msg) (b.handled msg) := by
  cases msg with
  | flush => exact h.delivered _ _ _
  | log m =>
      have hlog := h.delivered (.log m) (fun sink => sink.shouldLog m.level) m.source
      have hshould : (a.delivered (.log m) (fun sink => sink.shouldLog m.level)
          m.source).shouldFlush m =
          (b.delivered (.log m) (fun sink => sink.shouldLog m.level) m.source).shouldFlush m := by
        rw [shouldFlush, shouldFlush, hlog.flushLevel]
      unfold Logger.handled Logger.sunk
      dsimp only
      rw [hshould]
      split_ifs
      · exact hlog.delivered _ _ _
      · exact hlog

/-- Handling a message concerns the sinks and the error handler only. -/
theorem handled_frame (msg : AsyncMsg) (l : Logger) :
    l.handled msg =
      { l with sinks := (l.handled msg).sinks, errHandler := (l.handled msg).errHandler } := by
  cases msg with
  | flush => rfl
  | log m =>
      unfold Logger.handled Logger.sunk
      dsimp only
      split_ifs <;> rfl

theorem Contained.perform {l : Logger} (h : l.Contained) (hsync : l.async = none)
    (msg : AsyncMsg) : l.perform msg = l.handled msg := by
  cases msg with
  | log m =>
      simp only [Logger.perform, Logger.sinkIt, hsync, h.loggerSinkIt]
      rfl
  | flush =>
      simp only [Logger.perform, Logger.flush, hsync, h.loggerFlush]
      rfl

/-- A plain logger goes through the states of the backend. -/
theorem Contained.performAll {l : Logger} (h : l.Contained) (hsync : l.async = none)
    (msgs : List AsyncMsg) :
    l.performAll msgs = msgs.foldl (fun l msg => l.handled msg) l ∧
      (l.performAll msgs).Contained ∧ (l.performAll msgs).async = none ∧
      (l.performAll msgs).flushLevel = l.flushLevel := by
  induction msgs generalizing l with
  | nil => exact ⟨rfl, h, hsync, rfl⟩
  | cons msg rest ih =>
      have hframe := handled_frame msg l
      have hasync : (l.handled msg).async = none := by rw [hframe]; exact hsync
      have hflush : (l.handled msg).flushLevel = l.flushLevel := by rw [hframe]
      rw [Logger.performAll, List.foldl_cons, h.perform hsync, ← hflush]
      exact ih (h.handled msg) hasync

theorem SameSinks.foldl_handled {a b : Logger} (h : SameSinks a b) (msgs : List AsyncMsg) :
    SameSinks (msgs.foldl (fun l msg => l.handled msg) a)
      (msgs.foldl (fun l msg => l.handled msg) b) := by
  induction msgs generalizing a b with
  | nil => exact h
  | cons msg rest ih => exact ih (h.handled msg)

end Logger

/-- Only handling a message delivers it. -/
theorem Pool.delivered_act {μ : Type*} {s s' : Pool μ} {a : PoolAct} (h : s.act a = some s') :
    (∃ i m count, a = .process i ∧ s.workers[i]? = some ⟨.holding (.work m), count⟩ ∧
      s'.delivered = s.delivered ++ [m]) ∨
    (s'.delivered = s.delivered ∧
      ∀ i m count, a = .process i → s.workers[i]? ≠ some ⟨.holding (.work m), count⟩) := by
  cases a with
  | post p =>
      -- Posts and terminates go through the queue alone.
      rw [act] at h
      split at h
      · obtain ⟨t, ht, rfl⟩ := Option.map_eq_some_iff.mp h
        obtain ⟨rfl, -⟩ := postAsyncMsg_eq_some ht
        exact .inr ⟨rfl, by simp⟩
      · cases h
  | dequeue i =>
      rw [act] at h
      split at h
      · split_ifs at h
        obtain rfl := Option.some.inj h
        exact .inr ⟨rfl, by simp⟩
      · cases h
  | process i =>
      rw [act] at h
      split at h
      · next m count hworker =>
          obtain rfl := Option.some.inj h
          exact .inl ⟨i, m, count, rfl, hworker, rfl⟩
      · next count hworker =>
          -- A terminate message ends the worker; nothing is delivered.
          obtain rfl := Option.some.inj h
          refine .inr ⟨rfl, ?_⟩
          rintro _ m count' ⟨⟩
          simp [hworker]
      · cases h
  | shutDown =>
      rw [act] at h
      split_ifs at h
      obtain rfl := Option.some.inj h
      exact .inr ⟨rfl, by simp⟩
  | terminate =>
      rw [act] at h
      split at h
      · obtain ⟨t, ht, rfl⟩ := Option.map_eq_some_iff.mp h
        obtain ⟨rfl, -⟩ := postAsyncMsg_eq_some ht
        exact .inr ⟨rfl, by simp⟩
      · cases h
  | join =>
      rw [act] at h
      split_ifs at h
      obtain rfl := Option.some.inj h
      exact .inr ⟨rfl, by simp⟩

/-- The backend's logger has handled what the worker has delivered. -/
structure Handled (l : Logger) (b : Backend) : Prop where
  contained : b.logger.Contained
  logger : b.logger = (b.pool.delivered.map Posted.body).foldl (fun l msg => l.handled msg) l

theorem Handled.act {l : Logger} {b b' : Backend} (h : Handled l b) {a : PoolAct}
    (hact : b.act a = some b') : b.pool.act a = some b'.pool ∧ Handled l b' := by
  obtain ⟨pool, hpool, hb'⟩ := Option.map_eq_some_iff.mp hact
  rcases Pool.delivered_act hpool with ⟨i, m, count, rfl, hworker, hdelivered⟩ | ⟨hsame, hnone⟩
  · -- The worker hands the message to the backend.
    have htaken : b.taken i = some m.body := by rw [Backend.taken, hworker]
    simp only [htaken, h.contained.backend] at hb'
    subst hb'
    refine ⟨hpool, h.contained.handled m.body, ?_⟩
    simp only [hdelivered, List.map_append, List.foldl_append, List.map_cons, List.map_nil,
      List.foldl_cons, List.foldl_nil, ← h.logger]
  · -- In every other step the logger is left alone.
    have hlogger : b' = ⟨pool, b.logger⟩ := by
      rw [← hb']
      split
      · next i =>
          have htaken : b.taken i = none := by
            rw [Backend.taken]
            split
            · next m count hworker => exact absurd hworker (hnone i m count rfl)
            · rfl
          simp only [htaken]
      · rfl
    subst hlogger
    exact ⟨hpool, h.contained, by simp only [hsame]; exact h.logger⟩

theorem Handled.run {l : Logger} {b b' : Backend} (h : Handled l b) {acts : List PoolAct}
    (hrun : b.run acts = some b') : b.pool.run acts = some b'.pool ∧ Handled l b' := by
  obtain ⟨pool, hpool, rfl, hend⟩ := Runs.partialRun_simulates
    (R := fun pool b => b.pool = pool ∧ Handled l b)
    (fun pool b a b' hb hact => by
      obtain ⟨rfl, hb⟩ := hb
      obtain ⟨hpool, hb'⟩ := hb.act hact
      exact ⟨b'.pool, hpool, rfl, hb'⟩) ⟨rfl, h⟩ hrun
  exact ⟨hpool, hend⟩

/-! ## The front end -/

/-- A call on a logger: a whole log statement, a flush or a dump. -/
inductive Call
  | log (call : LogCall) (ops : List ExecutorOp) (order : List ℕ)
  | flush
  | dumpBacktrace (start stop : Logger.Stamp)

namespace Logger

def issue (call : Call) (l : Logger) : Logger :=
  match call with
  | .log call ops order => (World.statement call ops order l).logger
  | .flush => l.flush.2
  | .dumpBacktrace start stop => (l.dumpBacktrace start stop).2

def issueAll (calls : List Call) (l : Logger) : Logger :=
  calls.foldl (fun l call => l.issue call) l

/-- What the calls post to the thread pool. -/
def requests (qMaxItems : ℕ) (calls : List Call) (l : Logger) : List AsyncMsg :=
  match ((l.asynchronous qMaxItems).issueAll calls).async with
  | some link => link.posted
  | none => []

/-- The asynchronous logger `a` has posted what the plain logger `b` has done,
starting from `l`; the rest of them is the same. -/
structure Mirror (qMaxItems : ℕ) (l a b : Logger) : Prop where
  room : (CircularQ.new qMaxItems : CircularQ (PoolMsg AsyncMsg)).full = false
  link : ∃ posted, a.async = some (.waiting qMaxItems posted) ∧
    b.sinks = (l.synchronous.performAll posted).sinks
  plain : b.async = none
  name : a.name = b.name
  level : a.level = b.level
  flushLevel : b.flushLevel = l.flushLevel
  tracer : a.tracer = b.tracer
  contained : l.Contained
  contained_left : a.Contained
  contained_right : b.Contained

variable {qMaxItems : ℕ}

/-- Posting mirrors performing. -/
theorem Mirror.perform {l a b : Logger} (h : Mirror qMaxItems l a b) {posted : List AsyncMsg}
    (hlink : a.async = some (.waiting qMaxItems posted)) (msg : AsyncMsg) :
    Mirror qMaxItems l { a with async := some (.waiting qMaxItems (posted ++ [msg])) }
      (b.handled msg) := by
  obtain ⟨posted', hlink', hsinks⟩ := h.link
  obtain rfl : posted' = posted := by simpa [hlink, PoolLink.waiting] using hlink'.symm
  have hl : l.synchronous.Contained := ⟨h.contained.stdOnly, h.contained.returns⟩
  obtain ⟨-, hperformed, hsync, hflush⟩ := hl.performAll rfl posted'
  have hframe := handled_frame msg b
  have hsame : SameSinks b (l.synchronous.performAll posted') :=
    ⟨hsinks, h.flushLevel.trans hflush.symm⟩
  constructor
  case room => exact h.room
  case link =>
    -- The plain logger performs the message at the end of what it has performed.
    refine ⟨posted' ++ [msg], rfl, ?_⟩
    rw [Logger.performAll, List.foldl_append, List.foldl_cons, List.foldl_nil, ← Logger.performAll,
      hperformed.perform hsync]
    exact (hsame.handled msg).sinks
  case plain => rw [hframe]; exact h.plain
  case name => rw [hframe]; exact h.name
  case level => rw [hframe]; exact h.level
  case flushLevel => rw [hframe]; exact h.flushLevel
  case tracer => rw [hframe]; exact h.tracer
  case contained => exact h.contained
  case contained_left => exact ⟨h.contained_left.stdOnly, h.contained_left.returns⟩
  case contained_right => exact h.contained_right.handled msg

/-- Two calls that return and keep the mirror. -/
def Mirrored (qMaxItems : ℕ) (l : Logger) (left right : Outcome Logger Stop) : Prop :=
  left.1 = none ∧ right.1 = none ∧ Mirror qMaxItems l left.2 right.2

theorem Mirror.sinkIt {l a b : Logger} (h : Mirror qMaxItems l a b) (msg : Record) :
    Mirrored qMaxItems l (a.sinkIt msg) (b.sinkIt msg) := by
  obtain ⟨posted, hlink, -⟩ := h.link
  have hleft : a.sinkIt msg =
      (none, { a with async := some (.waiting qMaxItems (posted ++ [.log msg])) }) := by
    simp [Logger.sinkIt, hlink, asyncSinkIt, post, Outcome.within, PoolLink.waiting,
      PoolLink.neverRoom, h.room]
  have hright : b.sinkIt msg = (none, b.handled (.log msg)) := by
    simp only [Logger.sinkIt, h.plain, h.contained_right.loggerSinkIt]
    rfl
  rw [hleft, hright]
  exact ⟨rfl, rfl, h.perform hlink (.log msg)⟩

theorem Mirror.flush {l a b : Logger} (h : Mirror qMaxItems l a b) :
    Mirrored qMaxItems l a.flush b.flush := by
  obtain ⟨posted, hlink, -⟩ := h.link
  have hleft : a.flush =
      (none, { a with async := some (.waiting qMaxItems (posted ++ [.flush])) }) := by
    simp [Logger.flush, hlink, asyncFlush, post, Outcome.within, PoolLink.waiting,
      PoolLink.neverRoom, h.room]
  have hright : b.flush = (none, b.handled .flush) := by
    simp only [Logger.flush, h.plain, h.contained_right.loggerFlush]
    rfl
  rw [hleft, hright]
  exact ⟨rfl, rfl, h.perform hlink .flush⟩

/-- The same change of what the two loggers have in common. -/
theorem Mirror.setTracer {l a b : Logger} (h : Mirror qMaxItems l a b) (tracer : Backtracer) :
    Mirror qMaxItems l { a with tracer } { b with tracer } where
  room := h.room
  link := h.link
  plain := h.plain
  name := h.name
  level := h.level
  flushLevel := h.flushLevel
  tracer := rfl
  contained := h.contained
  contained_left := ⟨h.contained_left.stdOnly, h.contained_left.returns⟩
  contained_right := ⟨h.contained_right.stdOnly, h.contained_right.returns⟩

/-- Reports do not matter to the mirror. -/
theorem Mirror.setErrHandler {l a b : Logger} (h : Mirror qMaxItems l a b) {left right : ErrHandler}
    (hleft : left.Returns) (hright : right.Returns) :
    Mirror qMaxItems l { a with errHandler := left } { b with errHandler := right } where
  room := h.room
  link := h.link
  plain := h.plain
  name := h.name
  level := h.level
  flushLevel := h.flushLevel
  tracer := h.tracer
  contained := h.contained
  contained_left := ⟨h.contained_left.stdOnly, hleft⟩
  contained_right := ⟨h.contained_right.stdOnly, hright⟩

theorem Mirrored.andThen {l : Logger} {left right : Outcome Logger Stop}
    (h : Mirrored qMaxItems l left right)
    {next next' : Logger → Outcome Logger Stop}
    (hnext : ∀ a b, Mirror qMaxItems l a b → Mirrored qMaxItems l (next a) (next' b)) :
    Mirrored qMaxItems l (left.andThen next) (right.andThen next') := by
  rw [Outcome.andThen_returned h.1, Outcome.andThen_returned h.2.1]
  exact hnext _ _ h.2.2

theorem Mirror.dumpBacktrace {l a b : Logger} (h : Mirror qMaxItems l a b) (start stop : Stamp) :
    Mirrored qMaxItems l (a.dumpBacktrace start stop) (b.dumpBacktrace start stop) := by
  have hline (a b : Logger) (h : Mirror qMaxItems l a b) (stamp : Stamp) (text : Bytes) :
      Mirrored qMaxItems l (a.sinkIt (a.dumpLine stamp text))
        (b.sinkIt (b.dumpLine stamp text)) := by
    rw [dumpLine, dumpLine, h.name]
    exact h.sinkIt _
  unfold Logger.dumpBacktrace
  rw [h.tracer]
  split_ifs
  · refine (hline a b h start _).andThen fun a₁ b₁ h₁ => Mirrored.andThen ?_ fun a₂ b₂ h₂ =>
      hline a₂ b₂ h₂ stop _
    -- The two rings hold the same messages, so the loops pop in step.
    have hloop := Backtracer.foreachPopLoop_related (R := Mirror qMaxItems l)
      (fun msg s t hst => hst.sinkIt msg) a₁.tracer.messages.maxItems a₁.tracer.messages h₁
    obtain ⟨hleft, hright, hring, hmirror⟩ := hloop
    have hsetting := hmirror.setTracer
      { a₁.tracer with messages := (Backtracer.foreachPopLoop Logger.sinkIt
        a₁.tracer.messages.maxItems a₁.tracer.messages a₁).2.1 }
    rw [← h₁.tracer]
    refine ⟨hleft, hright, ?_⟩
    simp only [Backtracer.foreachPop, Outcome.within, ← hring]
    exact hsetting
  · exact ⟨rfl, rfl, h⟩

theorem Mirror.executorCallback {l a b : Logger} (h : Mirror qMaxItems l a b) (msg : Record)
    (logEnabled tracebackEnabled : Bool) :
    Mirrored qMaxItems l (a.executorCallback msg logEnabled tracebackEnabled)
      (b.executorCallback msg logEnabled tracebackEnabled) := by
  have hsink : Mirrored qMaxItems l (if logEnabled then a.sinkIt msg else (none, a))
      (if logEnabled then b.sinkIt msg else (none, b)) := by
    cases logEnabled with
    | false => exact ⟨rfl, rfl, h⟩
    | true => exact h.sinkIt msg
  refine hsink.andThen fun a' b' h' => ⟨rfl, rfl, ?_⟩
  cases tracebackEnabled with
  | false => exact h'
  | true =>
      have := h'.setTracer (a'.tracer.pushBack msg)
      simpa [pushTrace, h'.tracer] using this

/-- What formatting throws is caught on both sides in the same way. -/
theorem loggerCatch_returns {left right : ErrHandler} (hleft : left.Returns)
    (hright : right.Returns) (location : SourceLoc) (thrown : Thrown) :
    (loggerCatch location (some thrown) left).1 = (loggerCatch location (some thrown) right).1 ∧
      (loggerCatch location (some thrown) left).2.Returns ∧
      (loggerCatch location (some thrown) right).2.Returns := by
  cases thrown with
  | std what =>
      simp only [loggerCatch, hleft.call, hright.call]
      exact ⟨trivial, hleft, hright⟩
  | other =>
      simp only [loggerCatch, hleft.call, hright.call, Outcome.andThen]
      exact ⟨trivial, hleft, hright⟩

theorem Mirror.log {l a b : Logger} (h : Mirror qMaxItems l a b) (place : Addr) (call : LogCall) :
    (a.log place call).1 = (b.log place call).1 ∧
      Mirror qMaxItems l (a.log place call).2 (b.log place call).2 := by
  have hlevel : a.shouldLog call.lvl = b.shouldLog call.lvl := by
    rw [shouldLog, shouldLog, h.level]
  have henabled : a.enabledFor call = b.enabledFor call := by
    rw [enabledFor, enabledFor, hlevel, h.tracer]
  have hcallback (payload : Bytes) : a.callbackFor call payload = b.callbackFor call payload := by
    rw [callbackFor, callbackFor, hlevel, h.tracer, h.name]
  -- The two loggers decide alike, so both take the same of the three ways.
  rcases a.log_cases place call with ⟨hoff, ha⟩ | ⟨payload, hon, hpayload, ha⟩ |
    ⟨thrown, hon, hnone, hmsg, ha⟩
  · rcases b.log_cases place call with ⟨_, hb⟩ | ⟨_, hon', _⟩ | ⟨_, hon', _⟩
    · rw [ha, hb]
      exact ⟨rfl, h⟩
    · exact absurd (hoff.symm.trans (henabled.trans hon')) (by simp)
    · exact absurd (hoff.symm.trans (henabled.trans hon')) (by simp)
  · rcases b.log_cases place call with ⟨hoff, _⟩ | ⟨payload', _, hpayload', hb⟩ | ⟨_, _, hnone, _⟩
    · exact absurd (hon.symm.trans (henabled.trans hoff)) (by simp)
    · obtain rfl : payload = payload' := Option.some.inj (hpayload.symm.trans hpayload')
      rw [ha, hb, hcallback, hlevel, h.tracer]
      exact ⟨rfl, h⟩
    · exact absurd (hpayload.symm.trans hnone) (by simp)
  · rcases b.log_cases place call with ⟨hoff, _⟩ | ⟨_, _, hpayload, _⟩ | ⟨thrown', _, _, hmsg', hb⟩
    · exact absurd (hon.symm.trans (henabled.trans hoff)) (by simp)
    · exact absurd (hnone.symm.trans hpayload) (by simp)
    · obtain rfl : thrown = thrown' := by simpa using hmsg.symm.trans hmsg'
      obtain ⟨hthrown, hleft, hright⟩ := loggerCatch_returns h.contained_left.returns
        h.contained_right.returns call.loc thrown
      rcases hl : loggerCatch call.loc (some thrown) a.errHandler with ⟨left, left'⟩
      rcases hr : loggerCatch call.loc (some thrown) b.errHandler with ⟨right, right'⟩
      rw [hl, hr] at hthrown
      rw [hl] at ha hleft
      rw [hr] at hb hright
      obtain rfl : left = right := hthrown
      rw [ha, hb]
      cases left with
      | none => exact ⟨rfl, h.setErrHandler hleft hright⟩
      | some _ => exact ⟨rfl, h.setErrHandler hleft hright⟩

end Logger

/-! ## Log statements on both sides -/

/-- Two worlds in which the same has happened to mirrored loggers. -/
structure WorldMirror (qMaxItems : ℕ) (l : Logger) (v w : World) : Prop where
  logger : Logger.Mirror qMaxItems l v.logger w.logger
  executors : v.executors = w.executors

namespace WorldMirror

variable {qMaxItems : ℕ} {l : Logger} {v w : World}

theorem executor (h : WorldMirror qMaxItems l v w) (i : ℕ) : v.executor i = w.executor i := by
  rw [World.executor, World.executor, h.executors]

theorem log (h : WorldMirror qMaxItems l v w) (call : LogCall) :
    WorldMirror qMaxItems l (v.log call).2 (w.log call).2 := by
  have hplace : v.executors.length = w.executors.length := congrArg List.length h.executors
  obtain ⟨hresult, hmirror⟩ := h.logger.log w.executors.length call
  rw [World.log, World.log, hplace]
  rcases hv : v.logger.log w.executors.length call with ⟨e | e, a⟩
  · rcases hw : w.logger.log w.executors.length call with ⟨e' | e', b⟩
    · rw [hv, hw] at hmirror
      exact ⟨hmirror, h.executors⟩
    · rw [hv, hw] at hresult
      exact absurd hresult (by simp)
  · rcases hw : w.logger.log w.executors.length call with ⟨e' | e', b⟩
    · rw [hv, hw] at hresult
      exact absurd hresult (by simp)
    · rw [hv, hw] at hresult hmirror
      obtain rfl := Except.ok.inj hresult
      exact ⟨hmirror, congrArg (· ++ [e]) h.executors⟩

theorem op (h : WorldMirror qMaxItems l v w) (o : ExecutorOp) :
    WorldMirror qMaxItems l (v.op o).2 (w.op o).2 := by
  cases o with
  | params i p =>
      refine ⟨h.logger, ?_⟩
      simp only [World.op, Outcome.within, h.executor, h.executors]
  | move i =>
      refine ⟨h.logger, ?_⟩
      simp only [World.op, h.executor, h.executors]

theorem destroy (h : WorldMirror qMaxItems l v w) (i : ℕ) :
    WorldMirror qMaxItems l (v.destroy i).2 (w.destroy i).2 := by
  rw [World.destroy, World.destroy, h.executor i]
  cases hexec : w.executor i with
  | none => exact h
  | some ctx =>
      exact ⟨(h.logger.executorCallback _ _ _).2.2, congrArg (·.set i none) h.executors⟩

theorem runOps (h : WorldMirror qMaxItems l v w) (ops : List ExecutorOp) :
    WorldMirror qMaxItems l (v.runOps ops) (w.runOps ops) := by
  induction ops generalizing v w with
  | nil => exact h
  | cons o rest ih => exact ih (h.op o)

theorem destroyAll (h : WorldMirror qMaxItems l v w) (order : List ℕ) :
    WorldMirror qMaxItems l (v.destroyAll order) (w.destroyAll order) := by
  induction order generalizing v w with
  | nil => exact h
  | cons i rest ih => exact ih (h.destroy i)

end WorldMirror

namespace Logger

variable {qMaxItems : ℕ}

theorem Mirror.issue {l a b : Logger} (h : Mirror qMaxItems l a b) (call : Call) :
    Mirror qMaxItems l (a.issue call) (b.issue call) := by
  cases call with
  | log call ops order =>
      have hstart : WorldMirror qMaxItems l ⟨a, [], []⟩ ⟨b, [], []⟩ := ⟨h, rfl⟩
      exact (((hstart.log call).runOps ops).destroyAll order).logger
  | flush => exact h.flush.2.2
  | dumpBacktrace start stop => exact (h.dumpBacktrace start stop).2.2

/-- The asynchronous logger posts what the plain one has done. -/
theorem issueAll_mirror {l : Logger} (hl : l.Contained)
    (hroom : (CircularQ.new qMaxItems : CircularQ (PoolMsg AsyncMsg)).full = false)
    (calls : List Call) :
    Mirror qMaxItems l ((l.asynchronous qMaxItems).issueAll calls)
      (l.synchronous.issueAll calls) := by
  have hstart : Mirror qMaxItems l (l.asynchronous qMaxItems) l.synchronous :=
    { room := hroom
      link := ⟨[], rfl, rfl⟩
      plain := rfl
      name := rfl
      level := rfl
      flushLevel := rfl
      tracer := rfl
      contained := hl
      contained_left := ⟨hl.stdOnly, hl.returns⟩
      contained_right := ⟨hl.stdOnly, hl.returns⟩ }
  have hrun : ∀ a b, Mirror qMaxItems l a b →
      Mirror qMaxItems l (a.issueAll calls) (b.issueAll calls) := by
    induction calls with
    | nil =>
        intro a b h
        exact h
    | cons call rest ih =>
        intro a b h
        exact ih (a.issue call) (b.issue call) (h.issue call)
  exact hrun _ _ hstart

theorem sinks_issueAll {l : Logger} (hl : l.Contained)
    (hroom : (CircularQ.new qMaxItems : CircularQ (PoolMsg AsyncMsg)).full = false)
    (calls : List Call) :
    (l.synchronous.issueAll calls).sinks =
      (l.synchronous.performAll (l.requests qMaxItems calls)).sinks := by
  obtain ⟨posted, hlink, hsinks⟩ := (issueAll_mirror hl hroom calls).link
  rw [hsinks, requests, hlink]
  rfl

end Logger

/-! ## The whole system -/

namespace Pool

variable {μ : Type*} {scripts : List (List (μ × OverflowPolicy))}

theorem getD_tagScripts (scripts : List (List (μ × OverflowPolicy))) (p : ℕ) :
    (tagScripts scripts).getD p [] = tagScript p (scripts.getD p []) := by
  simp only [tagScripts, List.getD_eq_getElem?_getD, List.getElem?_mapIdx]
  cases scripts[p]? <;> rfl

theorem map_body_tagScript (p : ℕ) (script : List (μ × OverflowPolicy)) :
    ((tagScript p script).map Prod.fst).map Posted.body = script.map Prod.fst := by
  apply List.ext_getElem (by simp [tagScript])
  intro i _ _
  simp [tagScript]

/-- With one worker and posts that wait, what is posted is delivered in order,
and each producer's messages keep their order. -/
theorem delivered_in_order {qMaxItems : ℕ} (hq : qMaxItems < sizeT) {start s : Pool μ}
    {acts : List PoolAct} (hnew : Pool.new qMaxItems 1 scripts = .ok start)
    (hblock : ∀ script ∈ scripts, ∀ post ∈ script, post.2 = .block)
    (hrun : start.run acts = some s) (hdone : s.shutdown = .done) :
    s.posted = s.delivered ∧ ∀ p, (s.posted.filter fun m => m.producer = p).map Posted.body =
      (scripts.getD p []).map Prod.fst := by
  obtain ⟨-, rfl⟩ := new_eq_ok hnew
  rcases Nat.lt_or_ge (qMaxItems + 1) sizeT with hlt | hge
  · obtain ⟨queued, terminates, dropped, hend, -, horder⟩ := run_induction
      (motive := fun t => ∃ queued terminates dropped,
        Conserved scripts t queued terminates dropped ∧ Lossless t ∧ InOrder t queued)
      (fun t t' ⟨_, _, _, ht, hloss, horder⟩ hstep => horder.step ht hloss hstep)
      ⟨[], 0, [], .initial hlt 1, lossless_initial hblock _ _, rfl, rfl⟩ hrun
    have hscripts : InScriptOrder scripts s := by
      refine run_induction (fun t t' ht hstep => ht.step hstep) ⟨fun p => rfl, ?_⟩ hrun
      intro p post hpost
      change post ∈ (tagScripts scripts).getD p [] at hpost
      rw [getD_tagScripts] at hpost
      exact mem_tagScript (List.mem_map_of_mem hpost)
    have hne : s.workers ≠ [] := List.length_pos_iff.mp (by rw [horder.worker]; exact Nat.one_pos)
    -- After the join the queue is empty and the worker holds nothing.
    have hqueue := (hend.done hne hdone).2.1
    rw [hend.queue, List.append_eq_nil_iff] at hqueue
    have hqueued : queued = [] := List.map_eq_nil_iff.mp hqueue.1
    have hheld : s.held = [] := by
      apply List.flatMap_eq_nil_iff.mpr
      intro w hw
      rw [heldBy, hend.joined hdone w hw]
    have hposted := horder.posted
    rw [hheld, hqueued, List.append_nil, List.append_nil] at hposted
    refine ⟨hposted, ?_⟩
    intro p
    have hpending : (s.pending.getD p []).map Prod.fst = [] := by
      rw [List.getD_eq_getElem?_getD]
      cases hget : s.pending[p]? with
      | none => rfl
      | some script =>
          exact List.flatMap_eq_nil_iff.mp (hend.stopped (by simp [hdone])) script
            (List.mem_of_getElem? hget)
    have hfilter := hscripts.order p
    rw [hpending, List.append_nil, getD_tagScripts] at hfilter
    rw [hfilter, map_body_tagScript]
  · have hdisabled : Disabled s := run_induction (fun t t' ht hstep => ht.step hstep)
      (disabled_initial (by omega) one_ne_zero scripts) hrun
    exact absurd hdone hdisabled.shutdown

end Pool

/-- When the pool of an asynchronous logger is destroyed, each sink has seen
what it sees of a plain logger that does what was posted, in that order; the
order is an interleaving of what the producers post.  If the calls in the order of
their posts are `calls`, that is what the plain logger does when given these calls;
with one producer they are its calls. -/
theorem async_logger_refines_sync {l : Logger} (hl : l.Contained) {qMaxItems : ℕ}
    (hq : qMaxItems < sizeT) {scripts : List (List AsyncMsg)} {start s : Backend}
    {acts : List PoolAct}
    (hnew : Backend.new qMaxItems (l.asynchronous qMaxItems) scripts = .ok start)
    (hrun : start.run acts = some s) (hdone : s.pool.shutdown = .done) :
    s.logger.sinks = (l.synchronous.performAll (s.pool.posted.map Posted.body)).sinks ∧
    (∀ p, (s.pool.posted.filter fun m => m.producer = p).map Posted.body = scripts.getD p []) ∧
    (∀ calls, s.pool.posted.map Posted.body = l.requests qMaxItems calls →
      s.logger.sinks = (l.synchronous.issueAll calls).sinks) ∧
    ∀ calls, scripts = [l.requests qMaxItems calls] →
      s.logger.sinks = (l.synchronous.issueAll calls).sinks := by
  obtain ⟨pool, hpool, rfl⟩ : ∃ pool, Pool.new qMaxItems 1 (Backend.blocking scripts) = .ok pool ∧
      start = ⟨pool, (l.asynchronous qMaxItems)⟩ := by
    cases hpool : Pool.new qMaxItems 1 (Backend.blocking scripts) with
    | error thrown => simp [Backend.new, hpool, Except.map] at hnew
    | ok pool => exact ⟨pool, rfl, by simpa [Backend.new, hpool, Except.map] using hnew.symm⟩
  have hblock : ∀ script ∈ Backend.blocking scripts, ∀ post ∈ script, post.2 = .block := by
    intro script hscript post hpost
    obtain ⟨msgs, -, rfl⟩ := List.mem_map.mp hscript
    obtain ⟨msg, -, rfl⟩ := List.mem_map.mp hpost
    rfl
  have hdelivered : pool.delivered = [] := by
    rw [(Pool.new_eq_ok hpool).2]
    rfl
  have hhandled : Handled (l.asynchronous qMaxItems) ⟨pool, (l.asynchronous qMaxItems)⟩ :=
    ⟨⟨hl.stdOnly, hl.returns⟩, by simp only [hdelivered]; rfl⟩
  obtain ⟨hpools, -, hlogger⟩ := hhandled.run hrun
  have hroom : (CircularQ.new qMaxItems : CircularQ (PoolMsg AsyncMsg)).full = false := by
    by_contra hfull
    exact (Pool.full_of_new_full hpool (Bool.not_eq_false _ ▸ hfull) hpools).2 hdone
  obtain ⟨hposted, hproducers⟩ := Pool.delivered_in_order hq hpool hblock hpools hdone
  have hsinks : s.logger.sinks =
      (l.synchronous.performAll (s.pool.posted.map Posted.body)).sinks := by
    have hsync : l.synchronous.Contained := ⟨hl.stdOnly, hl.returns⟩
    have hsame : Logger.SameSinks (l.asynchronous qMaxItems) l.synchronous := ⟨rfl, rfl⟩
    rw [(hsync.performAll rfl _).1, hlogger, hposted]
    exact (hsame.foldl_handled _).sinks
  have horders : ∀ p, (s.pool.posted.filter fun m => m.producer = p).map Posted.body =
      scripts.getD p [] := by
    intro p
    rw [hproducers p]
    simp only [Backend.blocking, List.getD_eq_getElem?_getD, List.getElem?_map]
    cases scripts[p]? with
    | none => rfl
    | some script => simp [Function.comp_def]
  have hcalled : ∀ calls, s.pool.posted.map Posted.body = l.requests qMaxItems calls →
      s.logger.sinks = (l.synchronous.issueAll calls).sinks := by
    intro calls hcalls
    rw [hsinks, hcalls, Logger.sinks_issueAll hl hroom]
  refine ⟨hsinks, horders, hcalled, ?_⟩
  intro calls hcalls
  -- There is no script but that of producer 0.
  have hall : ∀ m ∈ s.pool.posted, m.producer = 0 := by
    intro m hm
    by_contra hne
    obtain ⟨p, hp⟩ := Nat.exists_eq_succ_of_ne_zero hne
    have hnone := horders m.producer
    rw [hcalls, hp] at hnone
    have hmem : m ∈ s.pool.posted.filter fun m => m.producer = p.succ := by
      simpa [hp] using hm
    rw [List.map_eq_nil_iff.mp hnone] at hmem
    exact absurd hmem (by simp)
  have hone : s.pool.posted.map Posted.body = l.requests qMaxItems calls := by
    have hzero := horders 0
    rw [List.filter_eq_self.mpr fun m hm => by simpa using hall m hm, hcalls] at hzero
    exact hzero
  exact hcalled calls hone

/-- A log statement and a flush, through a queue with one place. -/
def sampleCalls : List Call := [.log (infoCall (.text (ascii "x"))) [] [0], .flush]

def sampleActs : List PoolAct :=
  [.post 0, .dequeue 0, .process 0, .post 0, .dequeue 0, .process 0, .shutDown, .terminate,
    .dequeue 0, .process 0, .join]

theorem async_logger_refines_sync_sample :
    ∃ s, Backend.run ⟨Pool.initial 1 1 (Backend.blocking [fullAsyncLogger.requests 1 sampleCalls]),
        fullAsyncLogger.asynchronous 1⟩ sampleActs = some s ∧
      s.logger.sinks = (fullAsyncLogger.synchronous.issueAll sampleCalls).sinks := by
  refine ⟨_, rfl, ?_⟩
  exact (@async_logger_refines_sync fullAsyncLogger contained_fullAsyncLogger 1 (by decide)
    [fullAsyncLogger.requests 1 sampleCalls] _ _ sampleActs rfl rfl rfl).2.2.2 sampleCalls rfl

end Structlog
