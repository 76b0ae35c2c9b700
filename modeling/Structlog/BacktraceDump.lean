import Structlog.Executor
import Structlog.Lib.Runs

/-!
# Backtrace and its dump

With backtrace enabled every message that a log statement makes is put into the ring,
whether its level is shown or not.  `dump_backtrace_` passes the messages in the ring to
`sink_it_`, between two lines of its own, and pops each one after that has returned.

`due` is what has been logged since `enable_backtrace(n)` and not been dumped yet; a dump
that throws leaves the rest due.  `Replays` says that the ring holds the latest `n` of them
and that a dump replays these.

The ring need not be one for `n` messages.  For the largest `n` there is, the size of the
ring, one more, wraps around, and such a ring ignores what is pushed; and where the ring
cannot be made, backtrace is enabled with the old one (`ringSize`).  Any ring that the class
makes is `Sized`, for which `foreachPop_eq` says what a dump does, and `Kept` is what stays
so as long as backtrace is enabled.  `HasRoom` is then what it takes to hold the latest `n`
messages (`Kept.step_replays_iff`), along whole runs (`backtrace_replays_iff`).
-/

namespace Structlog

open Lib BoundedFifo

/-! ## The loop of `foreach_pop` -/

/-- The messages are handled in order, and those that were handled are popped. -/
theorem Backtracer.foreachPopLoop_eq {σ : Type*} {ε : Type} (call : Record → σ → Outcome σ ε)
    {fuel : ℕ} {messages : CircularQ Record} (h : messages.WellFormed)
    (hfuel : messages.toList.length ≤ fuel) (s : σ) :
    ∃ rest : CircularQ Record, rest.WellFormed ∧ rest.maxItems = messages.maxItems ∧
      rest.toList = messages.toList.drop (Outcome.each call messages.toList s).1 ∧
      foreachPopLoop call fuel messages s =
        ((Outcome.each call messages.toList s).2.1, rest,
          (Outcome.each call messages.toList s).2.2) := by
  induction fuel generalizing messages s with
  | zero =>
      have hnil : messages.toList = [] := List.length_eq_zero_iff.mp (Nat.le_zero.mp hfuel)
      rw [hnil]
      exact ⟨messages, h, rfl, hnil, rfl⟩
  | succ fuel ih =>
      rw [foreachPopLoop]
      by_cases hempty : messages.empty = true
      · have hnil := h.empty_iff.mp hempty
        rw [if_pos hempty, hnil]
        exact ⟨messages, h, rfl, hnil, rfl⟩
      · have hcons := h.toList_eq_cons (Bool.eq_false_iff.mpr hempty)
        rw [if_neg hempty, hcons]
        cases hcall : (call messages.front s).1 with
        | none =>
            have hfuel' : messages.popFront.toList.length ≤ fuel := by
              rw [hcons, List.length_cons] at hfuel
              omega
            obtain ⟨rest, hwell, hsize, hlist, hloop⟩ :=
              ih h.popFront hfuel' (call messages.front s).2
            refine ⟨rest, hwell, hsize, ?_, ?_⟩
            · rw [Outcome.each_returned hcall, hlist, List.drop_succ_cons]
            · rw [Outcome.each_returned hcall, ← hloop]
              rcases hpair : call messages.front s with ⟨thrown, s'⟩
              rw [hpair] at hcall
              obtain rfl : thrown = none := hcall
              rfl
        | some thrown =>
            rw [Outcome.each_threw hcall]
            refine ⟨messages, h, rfl, hcons, ?_⟩
            rcases hpair : call messages.front s with ⟨thrown', s'⟩
            rw [hpair] at hcall
            obtain rfl : thrown' = some thrown := hcall
            rfl

/-- A ring with room for `size` messages; a disabled one has room for none. -/
inductive CircularQ.Sized (size : ℕ) (q : CircularQ Record) : Prop
  | ring (wellFormed : q.WellFormed) (maxItems : q.maxItems = size + 1)
  | disabled (noRoom : size = 0) (disabled : q = .disabled)

/-- Of the size asked for, or without any where that wraps around. -/
theorem CircularQ.sized_new {n : ℕ} (hn : n < sizeT) :
    (CircularQ.new n).Sized (addSizeT n 1 - 1) := by
  by_cases hwrap : n + 1 = sizeT
  · have hsize : addSizeT n 1 = 0 := by rw [addSizeT, hwrap, Nat.mod_self]
    apply Sized.disabled
    · rw [hsize]
    · rw [new, hwrap, Nat.mod_self]
      rfl
  · have hlt : n + 1 < sizeT := by omega
    have hsize : addSizeT n 1 = n + 1 := Nat.mod_eq_of_lt hlt
    apply Sized.ring (wellFormed_new hlt)
    rw [hsize]
    exact Nat.mod_eq_of_lt hlt

/-- The whole loop. -/
theorem Backtracer.foreachPop_eq {σ : Type*} {ε : Type} (call : Record → σ → Outcome σ ε) {n : ℕ}
    {b : Backtracer} (h : b.messages.Sized n) (s : σ) :
    ∃ rest : CircularQ Record, rest.Sized n ∧
      rest.toList = b.messages.toList.drop (Outcome.each call b.messages.toList s).1 ∧
      b.foreachPop call s = ((Outcome.each call b.messages.toList s).2.1,
        { b with messages := rest }, (Outcome.each call b.messages.toList s).2.2) := by
  cases h with
  | ring hwell hsize =>
      have hfuel : b.messages.toList.length ≤ b.messages.maxItems := by
        have := hwell.length_le
        omega
      obtain ⟨rest, hwell', hsize', hlist, hloop⟩ := foreachPopLoop_eq call hwell hfuel s
      refine ⟨rest, .ring hwell' (hsize'.trans hsize), hlist, ?_⟩
      rw [foreachPop, hloop]
      rfl
  | disabled hzero hdisabled =>
      rw [foreachPop, hdisabled]
      exact ⟨.disabled, .disabled hzero rfl, rfl, rfl⟩

theorem CircularQ.Sized.pushBack {n : ℕ} {q : CircularQ Record} (h : q.Sized n) (msg : Record) :
    (q.pushBack msg).Sized n := by
  cases h with
  | ring hwell hsize => exact .ring (hwell.pushBack msg) ((maxItems_pushBack q msg).trans hsize)
  | disabled hzero hdisabled =>
      rw [hdisabled]
      exact .disabled hzero rfl

theorem CircularQ.Sized.toList_pushBack {n : ℕ} {q : CircularQ Record} (h : q.Sized n)
    (msg : Record) : (q.pushBack msg).toList = BoundedFifo.push n q.toList msg := by
  cases h with
  | ring hwell hsize => rw [(hwell.toList_pushBack msg).1, hsize, Nat.add_sub_cancel]
  | disabled hzero hdisabled =>
      rw [hzero, hdisabled]
      rfl

theorem CircularQ.Sized.length_le {n : ℕ} {q : CircularQ Record} (h : q.Sized n) :
    q.toList.length ≤ n := by
  cases h with
  | ring hwell hsize =>
      have := hwell.length_le
      omega
  | disabled hzero hdisabled =>
      rw [hdisabled]
      exact Nat.zero_le n

/-! ## What `sink_it_` leaves alone -/

namespace Logger

/-- The tracer is nothing to `sink_it_`. -/
def withTracer (tracer : Backtracer) (l : Logger) : Logger := { l with tracer }

theorem overSinks_withTracer (event : SinkEvent) (wanted : Sink → Bool) (location : SourceLoc)
    (tracer : Backtracer) (l : Logger) :
    (l.withTracer tracer).overSinks event wanted location =
      (l.overSinks event wanted location).within (withTracer tracer) := rfl

theorem sinkIt_withTracer (msg : Record) (tracer : Backtracer) (l : Logger) :
    (l.withTracer tracer).sinkIt msg = (l.sinkIt msg).within (withTracer tracer) := by
  have hsink : (l.withTracer tracer).loggerSinkIt msg =
      (l.loggerSinkIt msg).within (withTracer tracer) := by
    rw [loggerSinkIt, loggerSinkIt, overSinks_withTracer]
    rcases l.overSinks (.log msg) (fun sink => sink.shouldLog msg.level) msg.source with
      ⟨_ | thrown, l'⟩
    · have hflush : (l'.withTracer tracer).shouldFlush msg = l'.shouldFlush msg := rfl
      dsimp only [Outcome.andThen, Outcome.within]
      rw [hflush]
      split_ifs <;> rfl
    · rfl
  unfold sinkIt
  cases hasync : l.async with
  | none =>
      have hasync' : (l.withTracer tracer).async = none := hasync
      rw [hasync']
      exact congrArg Outcome.orWaits hsink
  | some link =>
      have hasync' : (l.withTracer tracer).async = some link := hasync
      rw [hasync']
      rfl

/-- It leaves the name, the levels and the tracer. -/
theorem sinkIt_frame (msg : Record) (l : Logger) :
    (l.sinkIt msg).2.name = l.name ∧ (l.sinkIt msg).2.tracer = l.tracer := by
  have hsink : (l.loggerSinkIt msg).2.name = l.name ∧ (l.loggerSinkIt msg).2.tracer = l.tracer := by
    rw [loggerSinkIt, Outcome.andThen]
    split
    · split_ifs <;> exact ⟨rfl, rfl⟩
    · exact ⟨rfl, rfl⟩
  unfold sinkIt
  split
  · exact hsink
  · exact ⟨rfl, rfl⟩

theorem each_sinkIt_frame (msgs : List Record) (l : Logger) :
    (Outcome.each sinkIt msgs l).2.2.name = l.name ∧
      (Outcome.each sinkIt msgs l).2.2.tracer = l.tracer := by
  induction msgs generalizing l with
  | nil => exact ⟨rfl, rfl⟩
  | cons msg rest ih =>
      obtain ⟨hname, htracer⟩ := sinkIt_frame msg l
      cases hcall : (l.sinkIt msg).1 with
      | none =>
          obtain ⟨hname', htracer'⟩ := ih (l.sinkIt msg).2
          rw [Outcome.each_returned hcall]
          exact ⟨hname'.trans hname, htracer'.trans htracer⟩
      | some thrown =>
          rw [Outcome.each_threw hcall]
          exact ⟨hname, htracer⟩

/-! ## One dump -/

/-- The messages with the two lines around them. -/
def dumpLines (start stop : Stamp) (msgs : List Record) (l : Logger) : List Record :=
  l.dumpLine start (ascii "****************** Backtrace Start ******************") ::
    (msgs ++ [l.dumpLine stop (ascii "****************** Backtrace End ********************")])

/-- A dump passes these messages to `sink_it_`, one after the other as long as that
returns; after as many as that has handled, the others stay in the ring. -/
def DumpsAs (msgs : List Record) (l : Logger) : Prop :=
  ∀ start stop,
    let handled := Outcome.each sinkIt (l.dumpLines start stop msgs) l
    ∃ rest : CircularQ Record, rest.toList = msgs.drop (handled.1 - 1) ∧
      l.dumpBacktrace start stop = handled.2.within (withTracer ⟨true, rest⟩)

/-- What is in the ring is dumped, and the ring keeps its size. -/
theorem dumpBacktrace_eq {n : ℕ} {l : Logger} (henabled : l.tracer.enabled = true)
    (h : l.tracer.messages.Sized n) (start stop : Stamp) :
    let handled := Outcome.each sinkIt (l.dumpLines start stop l.tracer.messages.toList) l
    ∃ rest : CircularQ Record, rest.Sized n ∧
      rest.toList = l.tracer.messages.toList.drop (handled.1 - 1) ∧
      l.dumpBacktrace start stop = handled.2.within (withTracer ⟨true, rest⟩) := by
  set first := l.dumpLine start (ascii "****************** Backtrace Start ******************")
  obtain ⟨hfirst, htracer⟩ := sinkIt_frame first l
  have hsame (l' : Logger) (h' : l'.tracer = l.tracer) :
      l' = l'.withTracer ⟨true, l.tracer.messages⟩ := by
    rw [withTracer, ← henabled, ← h']
  rw [dumpBacktrace, if_pos henabled]
  cases hstart : (l.sinkIt first).1 with
  | some thrown =>
      rw [dumpLines, Outcome.each_threw hstart, Outcome.andThen_threw hstart]
      exact ⟨l.tracer.messages, h, rfl, congrArg _ (hsame _ htracer)⟩
  | none =>
      set l₁ := (l.sinkIt first).2
      set msgs := l.tracer.messages.toList
      have hmsgs : l₁.tracer.messages.toList = msgs := by rw [htracer]
      obtain ⟨rest, hsized, hlist, hloop⟩ := Backtracer.foreachPop_eq sinkIt (htracer ▸ h) l₁
      obtain ⟨hname, -⟩ := each_sinkIt_frame msgs l₁
      obtain ⟨hreturned, hthrew⟩ := Outcome.each_append sinkIt msgs
        [l.dumpLine stop (ascii "****************** Backtrace End ********************")] l₁
      -- The line in front has left the tracer alone.
      have hleft : (⟨l₁.tracer.enabled, rest⟩ : Backtracer) = ⟨true, rest⟩ := by
        rw [htracer, henabled]
      rw [hmsgs] at hlist hloop
      rw [dumpLines, Outcome.each_returned hstart, Outcome.andThen_returned hstart, hloop, hleft]
      refine ⟨rest, hsized, ?_⟩
      -- Either a message of the ring is the one that throws, and those behind it stay there, or the
      -- ring is empty when the last line is logged.
      cases hended : (Outcome.each sinkIt msgs l₁).2.1 with
      | some thrown =>
          have hne : (Outcome.each sinkIt msgs l₁).2.1 ≠ none := by simp [hended]
          rw [(hthrew hne).2, Nat.add_sub_cancel]
          refine ⟨hlist, ?_⟩
          rw [Outcome.within, Outcome.within, hended]
          rfl
      | none =>
          obtain ⟨hcount, hall⟩ := hreturned hended
          rw [hall, Nat.add_sub_cancel]
          set l₂ := (Outcome.each sinkIt msgs l₁).2.2
          refine ⟨?_, ?_⟩
          · rw [hlist, hcount, List.drop_length, List.drop_of_length_le (Nat.le_add_right _ _)]
          · have hlines : (l₂.withTracer ⟨true, rest⟩).dumpLine stop
                (ascii "****************** Backtrace End ********************") =
                l.dumpLine stop
                  (ascii "****************** Backtrace End ********************") := by
              rw [dumpLine, dumpLine, withTracer, hname, hfirst]
            rw [Outcome.each_singleton, ← sinkIt_withTracer, ← hlines]
            rfl

end Logger

/-! ## One statement -/

/-- The destruction of the owner is what the logger is called for. -/
theorem logger_destroyAll_owned {cb : Callback} {owner : ℕ} {params : List Json} {w : World}
    (h : Owned cb owner params w) {order : List ℕ} (hmem : owner ∈ order) :
    (w.destroyAll order).logger =
      (w.logger.executorCallback (cb.withParams params).msg cb.logEnabled
        cb.tracebackEnabled).2 := by
  obtain ⟨ctx, hctx, hholds⟩ := h.context
  rw [h.destroyAll hmem, World.destroy, hctx]
  dsimp only [Outcome.within]
  rw [hholds.finalMsg, hholds.logEnabled, hholds.tracebackEnabled]

namespace Logger

/-- The message that a statement makes, with its parameters, if formatting it does not
throw. -/
def logged (call : LogCall) (ops : List ExecutorOp) (l : Logger) : List Record :=
  (call.payload.map fun payload =>
    ((l.callbackFor call payload).withParams (ownedParams 0 1 ops)).msg).toList

/-- The statement comes to its end: all its executors are destroyed, and
`executor_callback` returns. -/
structure Completes (call : LogCall) (ops : List ExecutorOp) (order : List ℕ) (l : Logger) :
    Prop where
  all : order.Perm (List.range (1 + moveCount ops))
  returns : ∀ cb ∈ (World.statement call ops order l).callbacks,
    (l.executorCallback cb.msg cb.logEnabled cb.tracebackEnabled).1 = none

instance (call : LogCall) (ops : List ExecutorOp) (order : List ℕ) (l : Logger) :
    Decidable (l.Completes call ops order) :=
  decidable_of_iff (order.Perm (List.range (1 + moveCount ops)) ∧
      ∀ cb ∈ (World.statement call ops order l).callbacks,
        (l.executorCallback cb.msg cb.logEnabled cb.tracebackEnabled).1 = none)
    ⟨fun h => ⟨h.1, h.2⟩, fun h => ⟨h.all, h.returns⟩⟩

/-- `executor_callback` puts the message into the ring, if it returns. -/
theorem tracer_executorCallback {msg : Record} {logEnabled : Bool} {l : Logger}
    (h : (l.executorCallback msg logEnabled true).1 = none) :
    (l.executorCallback msg logEnabled true).2.tracer = l.tracer.pushBack msg := by
  have htracer : (if logEnabled then l.sinkIt msg else (none, l)).2.tracer = l.tracer := by
    split_ifs
    · exact (sinkIt_frame msg l).2
    · rfl
  rw [executorCallback, Outcome.andThen] at h ⊢
  split at h
  · rw [if_pos rfl, pushTrace, htracer]
  · cases h

/-- A statement that comes to its end puts its message into the ring. -/
theorem tracer_statement {l : Logger} (henabled : l.tracer.enabled = true) {call : LogCall}
    {ops : List ExecutorOp} {order : List ℕ} (h : l.Completes call ops order) :
    (World.statement call ops order l).logger.tracer =
      (l.logged call ops).foldl (fun tracer msg => tracer.pushBack msg) l.tracer := by
  have hen : l.enabledFor call = true := by rw [enabledFor, henabled, Bool.or_true]
  cases hpayload : call.payload with
  | none =>
      -- Nothing is made; at most the error handler was called.
      have hidle := runOps_idle (log_idle (l := l) (.inr hpayload)) ops
      have hlog : ((⟨l, [], []⟩ : World).log call).2.logger.tracer = l.tracer := by
        rcases l.log_cases 0 call with ⟨hdis, -⟩ | ⟨payload, -, hsome, -⟩ | ⟨thrown, -, -, -, hl⟩
        · rw [hen] at hdis
          cases hdis
        · rw [hpayload] at hsome
          cases hsome
        · rw [World.log, List.length_nil, hl]
          rcases loggerCatch call.loc (some thrown) l.errHandler with ⟨_ | thrown', h'⟩ <;> rfl
      rw [logged, hpayload, World.statement, destroyAll_of_none hidle.1, World.logger_runOps, hlog]
      rfl
  | some payload =>
      obtain ⟨howned, hlength⟩ := log_owned hen hpayload
      obtain ⟨hcount, owner, hrun⟩ := runOps_owned howned ops
      have hmem : owner ∈ order := by
        have := hrun.owner_lt
        rw [h.all.mem_iff, List.mem_range]
        omega
      rw [hlength, List.nil_append] at hrun
      have hsame : ((⟨l, [], []⟩ : World).log call).2.logger = l := by
        rcases l.log_cases 0 call with ⟨hdis, -⟩ | ⟨payload', -, -, hl⟩ | ⟨thrown, -, hnone, -⟩
        · rw [hen] at hdis
          cases hdis
        · rw [World.log, List.length_nil, hl]
        · rw [hpayload] at hnone
          cases hnone
      have hreturns := h.returns _
        (callbacks_statement hen hpayload ops h.all ▸ List.mem_singleton.mpr rfl)
      have htraced : (l.callbackFor call payload).tracebackEnabled = true := henabled
      rw [World.statement, logger_destroyAll_owned hrun hmem, World.logger_runOps, hsame, htraced,
        logged, hpayload]
      rw [Callback.withParams, htraced] at hreturns
      exact tracer_executorCallback hreturns

theorem flush_frame (l : Logger) : l.flush.2.tracer = l.tracer := by
  unfold flush
  split <;> rfl

end Logger

/-! ## Runs -/

/-- What is done to a logger after `enable_backtrace`. -/
inductive TraceCall
  | statement (call : LogCall) (ops : List ExecutorOp) (order : List ℕ)
  | dump (start stop : Logger.Stamp)
  | setLevel (lvl : Level)
  | flushOn (lvl : Level)
  | flush

/-- A logger, and what has been logged since `enable_backtrace` and is still to be
dumped. -/
structure Traced where
  logger : Logger
  due : List Record

namespace Traced

/-- A call, whether it throws or not.  A dump that has handled some messages leaves those
after them. -/
def step (n : ℕ) (s : Traced) : TraceCall → Traced
  | .statement call ops order =>
      { logger := (World.statement call ops order s.logger).logger
        due := s.due ++ s.logger.logged call ops }
  | .dump start stop =>
      let handled := Outcome.each Logger.sinkIt
        (s.logger.dumpLines start stop (latest n s.due)) s.logger
      { logger := (s.logger.dumpBacktrace start stop).2
        due := (latest n s.due).drop (handled.1 - 1) }
  | .setLevel lvl => { s with logger := { s.logger with level := lvl } }
  | .flushOn lvl => { s with logger := { s.logger with flushLevel := lvl } }
  | .flush => { s with logger := s.logger.flush.2 }

def Completes (s : Traced) : TraceCall → Prop
  | .statement call ops order => s.logger.Completes call ops order
  | _ => True

instance (s : Traced) (c : TraceCall) : Decidable (s.Completes c) :=
  match c with
  | .statement call ops order => inferInstanceAs (Decidable (s.logger.Completes call ops order))
  | .dump _ _ => inferInstanceAs (Decidable True)
  | .setLevel _ => inferInstanceAs (Decidable True)
  | .flushOn _ => inferInstanceAs (Decidable True)
  | .flush => inferInstanceAs (Decidable True)

/-- After `enable_backtrace(n)`, whether it returns or throws. -/
def enable (n : ℕ) (allocation : Option Thrown) (l : Logger) : Traced :=
  ⟨l.withTracer (l.tracer.enable n allocation).2, []⟩

/-- For how many messages there is room in the ring that is there then: the new one, for
whose size `n + 1` is computed in `size_t`, or else the old one. -/
def ringSize (n : ℕ) (allocation : Option Thrown) (l : Logger) : ℕ :=
  if Backtracer.RingMade n allocation then addSizeT n 1 - 1 else l.tracer.messages.maxItems - 1

/-- The ring holds the latest messages that are due, and a dump replays them. -/
structure Replays (n : ℕ) (s : Traced) : Prop where
  ring : s.logger.tracer.messages.toList = latest n s.due
  dump : s.logger.DumpsAs (latest n s.due)

/-- A ring of that size holds the latest `n` messages that are due. -/
def HasRoom (size n : ℕ) (s : Traced) : Prop := size = n ∨ s.due.length ≤ min size n

/-- What is so as long as backtrace is enabled. -/
structure Kept (size : ℕ) (s : Traced) : Prop where
  enabled : s.logger.tracer.enabled = true
  sized : s.logger.tracer.messages.Sized size

theorem kept_enable {n : ℕ} (hn : n < sizeT) (allocation : Option Thrown) {l : Logger}
    (hring : l.tracer.messages.WellFormed ∨ l.tracer.messages = .disabled) :
    (enable n allocation l).Kept (ringSize n allocation l) := by
  refine ⟨Backtracer.enabled_enable .., ?_⟩
  change (l.tracer.enable n allocation).2.messages.Sized _
  by_cases hmade : Backtracer.RingMade n allocation
  · rw [ringSize, if_pos hmade, Backtracer.enable_of_ringMade hmade]
    exact CircularQ.sized_new hn
  · rw [ringSize, if_neg hmade, (Backtracer.enable_of_not_ringMade hmade _).2]
    rcases hring with hwell | hdisabled
    · have := hwell.maxItems_pos
      exact .ring hwell (by dsimp only; omega)
    · exact .disabled (by rw [hdisabled]; rfl) hdisabled

variable {size n : ℕ} {s : Traced}

/-- A step that leaves the tracer. -/
theorem Kept.withLogger (h : s.Kept size) {l : Logger} (htracer : l.tracer = s.logger.tracer) :
    Kept size { s with logger := l } := by
  constructor
  case enabled => exact htracer ▸ h.enabled
  case sized => exact htracer ▸ h.sized

/-- What is in the ring is what a dump replays. -/
theorem Kept.replays_iff (h : s.Kept size) :
    s.Replays n ↔ s.logger.tracer.messages.toList = latest n s.due := by
  refine ⟨Replays.ring, fun hring => ⟨hring, ?_⟩⟩
  intro start stop
  obtain ⟨rest, -, hlist, hdump⟩ := Logger.dumpBacktrace_eq h.enabled h.sized start stop
  rw [← hring]
  exact ⟨rest, hlist, hdump⟩

/-- A message more. -/
theorem Kept.pushBack (h : s.Kept size) (msg : Record) {l : Logger}
    (htracer : l.tracer = s.logger.tracer.pushBack msg) :
    Kept size ⟨l, s.due ++ [msg]⟩ ∧
      l.tracer.messages.toList = push size s.logger.tracer.messages.toList msg := by
  have hstored : s.logger.tracer.pushBack msg =
      { s.logger.tracer with messages := s.logger.tracer.messages.pushBack msg } := by
    rw [Backtracer.pushBack, LogMsgBuffer.stored_eq]
  rw [hstored] at htracer
  refine ⟨⟨(congrArg Backtracer.enabled htracer).trans h.enabled, ?_⟩, ?_⟩
  · rw [htracer]
    exact h.sized.pushBack msg
  · rw [htracer]
    exact h.sized.toList_pushBack msg

/-- The ring holds the latest messages after one more exactly if there is room for it. -/
theorem push_eq_latest_iff {due : List Record} (hroom : size = n ∨ due.length ≤ min size n)
    (msg : Record) :
    push size (latest n due) msg = latest n (due ++ [msg]) ↔
      size = n ∨ (due ++ [msg]).length ≤ min size n := by
  rcases hroom with rfl | hle
  · exact iff_of_true (push_latest size due msg) (.inl rfl)
  · obtain ⟨hsize, hn⟩ := le_min_iff.mp hle
    have hpush := push_latest size due msg
    rw [latest_of_length_le hsize] at hpush
    rw [latest_of_length_le hn, hpush]
    exact latest_eq_latest_iff

/-- A step from a state in which the ring holds the latest messages. -/
theorem Kept.step_replays_iff (h : s.Kept size) {c : TraceCall} (hcompletes : s.Completes c) :
    (s.step n c).Kept size ∧
      (s.Replays n → s.HasRoom size n →
        ((s.step n c).Replays n ↔ (s.step n c).HasRoom size n)) := by
  have hsame {l : Logger} (htracer : l.tracer = s.logger.tracer) :
      Kept size { s with logger := l } ∧ (s.Replays n → s.HasRoom size n →
        (Replays n { s with logger := l } ↔ HasRoom size n { s with logger := l })) := by
    have hkept := h.withLogger htracer
    refine ⟨hkept, fun hreplays hroom => iff_of_true ?_ hroom⟩
    rw [hkept.replays_iff, htracer]
    exact hreplays.ring
  cases c with
  | statement call ops order =>
      have htracer := Logger.tracer_statement h.enabled hcompletes
      rw [Logger.logged] at htracer
      rw [step, Logger.logged]
      cases hpayload : call.payload with
      | none =>
          rw [hpayload] at htracer
          have hkept := hsame htracer
          rw [← List.append_nil s.due] at hkept
          exact hkept
      | some payload =>
          rw [hpayload] at htracer
          obtain ⟨hkept, hring⟩ := h.pushBack _ htracer
          refine ⟨hkept, fun hreplays hroom => ?_⟩
          rw [hreplays.ring] at hring
          exact (hkept.replays_iff.trans (by rw [hring])).trans (push_eq_latest_iff hroom _)
  | dump start stop =>
      obtain ⟨rest, hsized, hlist, hdump⟩ := Logger.dumpBacktrace_eq h.enabled h.sized start stop
      have htracer : (s.logger.dumpBacktrace start stop).2.tracer = ⟨true, rest⟩ := by
        rw [hdump]
        rfl
      have hkept : (s.step n (.dump start stop)).Kept size := by
        constructor
        case enabled => exact congrArg Backtracer.enabled htracer
        case sized =>
          rw [step, htracer]
          exact hsized
      refine ⟨hkept, fun hreplays _ => ?_⟩
      -- What stays in the ring is what is due, and not more than the ring can hold.
      have hring : (s.step n (.dump start stop)).logger.tracer.messages.toList =
          (s.step n (.dump start stop)).due := by
        rw [hreplays.ring] at hlist
        rw [step, htracer]
        exact hlist
      have hlength : (s.step n (.dump start stop)).due.length ≤ n := by
        rw [step, List.length_drop]
        exact (Nat.sub_le _ _).trans (length_latest_le n s.due)
      refine iff_of_true (hkept.replays_iff.mpr ?_) (.inr (le_min ?_ hlength))
      · rw [hring, latest_of_length_le hlength]
      · rw [← hring]
        exact hkept.sized.length_le
  | setLevel lvl => exact hsame rfl
  | flushOn lvl => exact hsame rfl
  | flush => exact hsame s.logger.flush_frame

/-- After `enable_backtrace(n)` and after every completed log statement, dump or other call
that follows, the ring holds exactly the latest `n` of the messages that are due and a dump
replays them, if and only if the ring is empty at first and always has room for them.  It is
so for a new ring, unless its size wraps around; without one it is up to the old ring.
Without backtrace a dump does nothing. -/
theorem backtrace_replays_iff {n : ℕ} (hn : n < sizeT) (allocation : Option Thrown) {l : Logger}
    (hring : l.tracer.messages.WellFormed ∨ l.tracer.messages = .disabled)
    (calls : List TraceCall)
    (hcompletes : ∀ p ∈ Runs.trace (step n) (enable n allocation l) calls, p.1.Completes p.2) :
    ((enable n allocation l).Replays n ∧
        (∀ p ∈ Runs.trace (step n) (enable n allocation l) calls, (step n p.1 p.2).Replays n) ↔
      (Backtracer.RingMade n allocation ∨ l.tracer.messages.toList = []) ∧
        ∀ p ∈ Runs.trace (step n) (enable n allocation l) calls,
          (step n p.1 p.2).HasRoom (ringSize n allocation l) n) ∧
    ∀ l' : Logger, l'.tracer.enabled = false →
      ∀ start stop, l'.dumpBacktrace start stop = (none, l') := by
  set size := ringSize n allocation l
  have hkept : (enable n allocation l).Kept size := kept_enable hn allocation hring
  constructor
  · have hstart : (enable n allocation l).Replays n ↔
        Backtracer.RingMade n allocation ∨ l.tracer.messages.toList = [] := by
      rw [hkept.replays_iff, enable, latest_nil]
      change (l.tracer.enable n allocation).2.messages.toList = [] ↔ _
      by_cases hmade : Backtracer.RingMade n allocation
      · rw [Backtracer.enable_of_ringMade hmade]
        exact iff_of_true (CircularQ.toList_new n) (.inl hmade)
      · rw [(Backtracer.enable_of_not_ringMade hmade _).2]
        exact (or_iff_right hmade).symm
    have hroom : (enable n allocation l).HasRoom size n := .inr (Nat.zero_le _)
    -- Both sides say that the ring holds the latest messages and has room, throughout.
    have hthroughout {C : Traced → Prop}
        (hC : ∀ s, s.Replays n ∧ s.HasRoom size n → ∀ c, s.Kept size → s.Completes c →
          ((s.step n c).Replays n ∧ (s.step n c).HasRoom size n ↔ C (s.step n c))) :=
      Runs.holds_throughout_iff (motive := fun s => s.Replays n ∧ s.HasRoom size n) (D := Completes)
        (C := fun s c => C (step n s c))
        (fun s c (hs : s.Kept size) hc => (hs.step_replays_iff hc).1)
        (fun s c hs hc hm => hC s hm c hs hc) hkept hcompletes
    have hleft := hthroughout (C := Replays n) fun s hm c hs hc =>
      ⟨And.left, fun hr => ⟨hr, ((hs.step_replays_iff hc).2 hm.1 hm.2).mp hr⟩⟩
    have hright := hthroughout (C := HasRoom size n) fun s hm c hs hc =>
      ⟨And.right, fun hr => ⟨((hs.step_replays_iff hc).2 hm.1 hm.2).mpr hr, hr⟩⟩
    rw [and_iff_left hroom] at hleft hright
    rw [← hstart]
    exact hleft.symm.trans hright
  · intro l' hdisabled start stop
    rw [Logger.dumpBacktrace, hdisabled]
    rfl

/-- A statement below the level of the logger. -/
def debugStatement (text : Bytes) : TraceCall :=
  .statement { infoCall (.text text) with lvl := .debug } [] [0]

theorem backtrace_replays_two :
    (Runs.run (step 2) (enable 2 none plainLogger)
      ([ascii "a", ascii "b", ascii "c"].map debugStatement)).Replays 2 :=
  ((backtrace_replays_iff (by decide) none (.inr rfl)
    ([ascii "a", ascii "b", ascii "c"].map debugStatement) (by decide)).1.mpr
      ⟨.inl (by decide), fun _ _ => .inl rfl⟩).2
    (Runs.run (step 2) (enable 2 none plainLogger) ([ascii "a", ascii "b"].map debugStatement),
      debugStatement (ascii "c"))
    (List.mem_cons_of_mem _ (List.mem_cons_of_mem _ List.mem_cons_self))

/-- The payloads that the sinks have received. -/
def seenPayloads (l : Logger) : List Bytes :=
  l.sinks.flatMap fun s => s.seen.filterMap fun event =>
    match event with
    | .log msg => some msg.payload
    | .flush => none

/-- A logger that shows everything from `info` on to a sink which never throws. -/
def recordingLogger : Logger :=
  { plainLogger with sinks := [⟨⟨.trace, fun _ _ => none⟩, []⟩] }

/-- With the largest size the dump shows its two lines, and none of the message that is
due. -/
theorem backtrace_forgets_all :
    let start := enable (sizeT - 1) none recordingLogger
    let s := Runs.run (step (sizeT - 1)) start [debugStatement (ascii "a")]
    start.Completes (debugStatement (ascii "a")) ∧
    s.due.map (·.payload) = [ascii "a"] ∧
    seenPayloads (s.logger.dumpBacktrace ⟨1, 0⟩ ⟨2, 0⟩).2 =
      [ascii "****************** Backtrace Start ******************",
        ascii "****************** Backtrace End ********************"] := by
  decide

end Traced

end Structlog
