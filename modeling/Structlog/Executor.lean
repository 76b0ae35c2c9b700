import Structlog.Logger

/-!
# Log statements and their executors

A log call makes an `executor`; chained calls add parameters to it; it may be
moved; its destructor hands the message to the logger.  An executor is `none`
when its `ctx_` is null: it is disabled, moved from or destroyed.

`World` has the executors of any number of statements in flight.  An executor's
address is its position in `executors`, so a move construction appends one.
`callbacks` are the calls of `executor_callback` so far.

The main result follows one statement.  At every moment one executor at most has
a context, the owner, and the parameters in its side buffer are what the calls
on owners have merged so far (`Owned`).  `runOps_owned` keeps this through any
calls and moves, and `destroyAll_owned` reads off the single callback.
-/

namespace Structlog

open Lib

structure Context where
  msg : LogMsgBuffer
  logEnabled : Bool
  tracebackEnabled : Bool

/-- `ctx_`, null or the executor's own storage. -/
abbrev Executor := Option Context

namespace Executor

/-- `executor(lgr, msg, log_enabled, traceback_enabled)` at `place`. -/
def new (place : Addr) (msg : Record) (logEnabled tracebackEnabled : Bool) : Executor :=
  some ⟨.copyOf place msg, logEnabled, tracebackEnabled⟩

/-- `executor(executor &&)` at `place`; `other.ctx_` becomes null. -/
def moveConstruct (place : Addr) (other : Executor) : Executor :=
  other.map fun ctx => { ctx with msg := ctx.msg.moveConstruct place }

/-- Assign the members one after the other. -/
def setMembers : List (Bytes × Json) → Json → Outcome Json
  | [], buffer => (none, buffer)
  | (key, value) :: rest, buffer =>
      match Json.setMember key value buffer with
      | .ok buffer' => setMembers rest buffer'
      | .error thrown => (some thrown, buffer)

/-- `operator()`. -/
def call (params : Json) (e : Executor) : Outcome Executor :=
  match e with
  | none => (none, none)
  | some ctx =>
      (setMembers params.items ctx.msg.paramsBuffer).within fun buffer =>
        some { ctx with msg := { ctx.msg with paramsBuffer := buffer } }

end Executor

/-- What the destructor passes on, `msg.params` pointing at the side buffer. -/
def Context.finalMsg (place : Addr) (ctx : Context) : Record :=
  LogMsgBuffer.record place { ctx.msg with msg := { ctx.msg.msg with params := some place } }

/-! ## Log calls -/

/-- The text of a log call: given as it is, or formatted by `log_`, which may
throw. -/
inductive Message
  | text (msg : Bytes)
  | formatted (result : Except Thrown Bytes)

/-- A call of `log`.  `time` is given by the caller or is the clock's. -/
structure LogCall where
  time : ℤ
  threadId : ℕ
  loc : SourceLoc
  lvl : Level
  message : Message

namespace Logger

def logIt (place : Addr) (msg : Record) (logEnabled tracebackEnabled : Bool) : Executor :=
  .new place msg logEnabled tracebackEnabled

/-- `log` and `log_`; the executor is constructed at `place`. -/
def log (place : Addr) (call : LogCall) (l : Logger) : Except Thrown Executor × Logger :=
  let logEnabled := l.shouldLog call.lvl
  let tracebackEnabled := l.tracer.enabled
  if !logEnabled && !tracebackEnabled then (.ok none, l)
  else
    let logMsg := LogMsg.new call.time call.threadId call.loc l.name call.lvl
    match call.message with
    | .text msg => (.ok (logIt place (logMsg msg) logEnabled tracebackEnabled), l)
    | .formatted (.ok msg) => (.ok (logIt place (logMsg msg) logEnabled tracebackEnabled), l)
    | .formatted (.error thrown) =>
        match loggerCatch call.loc (some thrown) l.errHandler with
        | (none, h) => (.ok none, { l with errHandler := h })
        | (some thrown', h) => (.error thrown', { l with errHandler := h })

end Logger

/-! ## Statements in flight -/

/-- The arguments of a call of `executor_callback`. -/
structure Callback where
  msg : Record
  logEnabled : Bool
  tracebackEnabled : Bool

structure World where
  logger : Logger
  executors : List Executor
  callbacks : List Callback

/-- What can happen to an executor before its destruction. -/
inductive ExecutorOp
  | params (i : ℕ) (params : Json)
  | move (i : ℕ)

namespace World

def executor (w : World) (i : ℕ) : Executor := w.executors.getD i none

def log (call : LogCall) (w : World) : Outcome World :=
  match w.logger.log w.executors.length call with
  | (.ok e, l) => (none, { w with logger := l, executors := w.executors ++ [e] })
  | (.error thrown, l) => (some thrown, { w with logger := l })

def op (o : ExecutorOp) (w : World) : Outcome World :=
  match o with
  | .params i params =>
      ((w.executor i).call params).within fun e => { w with executors := w.executors.set i e }
  | .move i =>
      (none, { w with
        executors := w.executors.set i none ++
          [(w.executor i).moveConstruct w.executors.length] })

/-- `~executor`. -/
def destroy (i : ℕ) (w : World) : Outcome World Stop :=
  match w.executor i with
  | none => (none, w)
  | some ctx =>
      let msg := ctx.finalMsg i
      (w.logger.executorCallback msg ctx.logEnabled ctx.tracebackEnabled).within fun l =>
        { logger := l
          executors := w.executors.set i none
          callbacks := w.callbacks ++ [⟨msg, ctx.logEnabled, ctx.tracebackEnabled⟩] }

/-- Calls and moves, whatever they throw. -/
def runOps (ops : List ExecutorOp) (w : World) : World := ops.foldl (fun w o => (w.op o).2) w

/-- Destroy executors in the order given, whatever is thrown. -/
def destroyAll (order : List ℕ) (w : World) : World := order.foldl (fun w i => (w.destroy i).2) w

/-- One log statement with everything that follows it. -/
def statement (call : LogCall) (ops : List ExecutorOp) (order : List ℕ) (l : Logger) : World :=
  (((⟨l, [], []⟩ : World).log call).2.runOps ops).destroyAll order

end World

/-! ## Merging parameters -/

/-- An object with the entries of the map; the side buffer is null until
something is written. -/
def Json.ofMap (m : OrdMap Bytes Json) : Json := if m.entries = [] then .null else .object m.entries

/-- Write all members of `params`, one JSON value after the other. -/
def mergeParams (params : List Json) : OrdMap Bytes Json :=
  OrdMap.empty.insertAll (params.flatMap Json.items)

/-- The last value of a key wins. -/
theorem lookup_mergeParams (key : Bytes) (params : List Json) :
    (mergeParams params).lookup key =
      params.reverse.findSome? fun p => OrdMap.lastValue key p.items := by
  rw [mergeParams, OrdMap.lookup_insertAll, OrdMap.lookup_empty, Option.or_none,
    OrdMap.lastValue_flatMap]

theorem mergeParams_append (params : List Json) (p : Json) :
    mergeParams (params ++ [p]) = (mergeParams params).insertAll p.items := by
  simp [mergeParams, OrdMap.insertAll_append]

theorem setMember_ofMap (key : Bytes) (value : Json) (m : OrdMap Bytes Json) :
    Json.setMember key value (Json.ofMap m) = .ok (Json.ofMap (m.insert key value)) := by
  have hne : (m.insert key value).entries ≠ [] := by
    intro hnil
    have hmem : key ∈ (m.insert key value).entries.map Prod.fst :=
      mem_keys_insertEntry.mpr (.inl rfl)
    rw [hnil] at hmem
    exact absurd hmem (by simp)
  rw [Json.ofMap, Json.ofMap, if_neg hne]
  by_cases hnil : m.entries = []
  · simp [Json.setMember, OrdMap.insert, hnil, insertEntry]
  · simp [if_neg hnil, Json.setMember, OrdMap.insert]

theorem setMembers_ofMap (entries : List (Bytes × Json)) (m : OrdMap Bytes Json) :
    Executor.setMembers entries (Json.ofMap m) = (none, Json.ofMap (m.insertAll entries)) := by
  induction entries generalizing m with
  | nil => rfl
  | cons entry rest ih =>
      obtain ⟨key, value⟩ := entry
      rw [Executor.setMembers, setMember_ofMap]
      exact ih _

/-! ## The owner of a statement -/

/-- What the calls on owning executors add, in order.  `owner` is the position
of the executor with the context and `next` the position of the next one to be
constructed. -/
def ownedParams (owner next : ℕ) : List ExecutorOp → List Json
  | [] => []
  | .params i p :: ops =>
      if i = owner then p :: ownedParams owner next ops else ownedParams owner next ops
  | .move i :: ops =>
      if i = owner then ownedParams next (next + 1) ops else ownedParams owner (next + 1) ops

/-- The number of executors that the moves construct. -/
def moveCount (ops : List ExecutorOp) : ℕ :=
  ops.countP fun o => match o with
    | .move _ => true
    | .params _ _ => false

/-- The context at `place` is that of the message of `cb`, without its
parameters yet; `params` have been merged into the side buffer. -/
structure Context.Holds (place : Addr) (cb : Callback) (params : List Json) (ctx : Context) :
    Prop where
  whole : ctx.msg.SelfContained place
  record : ctx.msg.record place = cb.msg
  unset : ctx.msg.msg.params = none
  buffer : ctx.msg.paramsBuffer = Json.ofMap (mergeParams params)
  logEnabled : ctx.logEnabled = cb.logEnabled
  tracebackEnabled : ctx.tracebackEnabled = cb.tracebackEnabled

/-- The callback for a message with its merged parameters. -/
def Callback.withParams (cb : Callback) (params : List Json) : Callback :=
  { cb with msg := { cb.msg with params := some (Json.ofMap (mergeParams params)) } }

namespace Context.Holds

variable {place : Addr} {cb : Callback} {params : List Json} {ctx : Context}

theorem new (place : Addr) (cb : Callback) (h : cb.msg.params = none) :
    Holds place cb [] ⟨.copyOf place cb.msg, cb.logEnabled, cb.tracebackEnabled⟩ := by
  have hcopy := LogMsgBuffer.selfContained_copyOf place cb.msg
  have hnone : (LogMsgBuffer.copyOf place cb.msg).msg.params = none := by
    simp [LogMsgBuffer.copyOf, LogMsgBuffer.ofLogMsg, LogMsgBuffer.updateStringViews,
      LogMsgBuffer.callerMsg, h]
  refine ⟨hcopy.1, hcopy.2, hnone, ?_, rfl, rfl⟩
  exact LogMsgBuffer.paramsAsserted_ofLogMsg _ _ _ hnone

theorem moveConstruct (h : ctx.Holds place cb params) (place' : Addr) :
    Holds place' cb params { ctx with msg := ctx.msg.moveConstruct place' } where
  whole := h.whole.moveConstruct.1
  record := h.whole.moveConstruct.2.trans h.record
  unset := Option.map_eq_none_iff.mpr h.unset
  buffer := h.buffer
  logEnabled := h.logEnabled
  tracebackEnabled := h.tracebackEnabled

theorem call (h : ctx.Holds place cb params) (p : Json) :
    ∃ ctx', Executor.call p (some ctx) = (none, some ctx') ∧
      ctx'.Holds place cb (params ++ [p]) := by
  refine ⟨{ ctx with
    msg := { ctx.msg with paramsBuffer := Json.ofMap (mergeParams (params ++ [p])) } }, ?_, ?_⟩
  · rw [Executor.call, h.buffer, setMembers_ofMap, mergeParams_append]
    rfl
  · refine ⟨?_, ?_, h.unset, rfl, h.logEnabled, h.tracebackEnabled⟩
    · exact ⟨h.whole.loggerName, h.whole.payload, h.whole.length_buffer, h.whole.params⟩
    · exact (LogMsgBuffer.record_paramsBuffer h.unset _).trans h.record

/-- The destructor passes the message with the merged parameters. -/
theorem finalMsg (h : ctx.Holds place cb params) :
    ctx.finalMsg place = (cb.withParams params).msg := by
  have hset : LogMsgBuffer.SelfContained place
      { ctx.msg with msg := { ctx.msg.msg with params := some place } } :=
    { loggerName := h.whole.loggerName
      payload := h.whole.payload
      length_buffer := h.whole.length_buffer
      params := fun a ha => (Option.some.inj ha).symm }
  have hrecord := h.record
  rw [h.whole.record_eq] at hrecord
  rw [Context.finalMsg, hset.record_eq, Callback.withParams, ← hrecord, h.buffer]
  rfl

end Context.Holds

/-- One executor has the context, the others have none, and nothing was handed
over yet. -/
structure Owned (cb : Callback) (owner : ℕ) (params : List Json) (w : World) : Prop where
  owner_lt : owner < w.executors.length
  context : ∃ ctx, w.executor owner = some ctx ∧ ctx.Holds owner cb params
  others : ∀ i, i ≠ owner → w.executor i = none
  callbacks : w.callbacks = []

theorem getD_set_none (executors : List Executor) (i j : ℕ) (e : Executor) :
    (executors.set i e).getD j none =
      if j = i ∧ i < executors.length then e else executors.getD j none := by
  simp only [List.getD_eq_getElem?_getD, List.getElem?_set]
  by_cases hij : i = j
  · subst hij
    by_cases hlt : i < executors.length
    · simp [hlt]
    · simp [hlt]
  · simp [hij, Ne.symm hij]

theorem getD_append_one (executors : List Executor) (j : ℕ) (e : Executor) :
    (executors ++ [e]).getD j none =
      if j = executors.length then e else executors.getD j none := by
  simp only [List.getD_eq_getElem?_getD]
  rcases Nat.lt_trichotomy j executors.length with hlt | rfl | hgt
  · rw [List.getElem?_append_left hlt, if_neg hlt.ne]
  · simp
  · rw [if_neg hgt.ne', List.getElem?_eq_none (by simp; omega),
      List.getElem?_eq_none hgt.le]

namespace Owned

variable {cb : Callback} {owner : ℕ} {params : List Json} {w : World}

/-- The parameters of a call on the owner are merged in. -/
theorem params_owner (h : Owned cb owner params w) (p : Json) :
    Owned cb owner (params ++ [p]) (w.op (.params owner p)).2 := by
  obtain ⟨ctx, hctx, hholds⟩ := h.context
  obtain ⟨ctx', hcall, hholds'⟩ := hholds.call p
  have hop : (w.op (.params owner p)).2 =
      { w with executors := w.executors.set owner (some ctx') } := by
    rw [World.op, hctx, hcall]
    rfl
  rw [hop]
  refine ⟨by simpa using h.owner_lt, ⟨ctx', ?_, hholds'⟩, fun i hi => ?_, h.callbacks⟩
  · rw [World.executor, getD_set_none, if_pos ⟨rfl, h.owner_lt⟩]
  · rw [World.executor, getD_set_none, if_neg fun hand => hi hand.1]
    exact h.others i hi

/-- A call on any other executor changes nothing. -/
theorem params_other (h : Owned cb owner params w) {i : ℕ} (hi : i ≠ owner) (p : Json) :
    Owned cb owner params (w.op (.params i p)).2 := by
  have hexec (j : ℕ) : (w.op (.params i p)).2.executor j = w.executor j := by
    rw [World.op, h.others i hi, World.executor]
    simp only [Executor.call, Outcome.within]
    rw [getD_set_none]
    split_ifs with hand
    · rw [hand.1, h.others i hi]
    · rfl
  have hlength : (w.op (.params i p)).2.executors.length = w.executors.length := by
    simp [World.op, Outcome.within]
  refine ⟨hlength ▸ h.owner_lt, ?_, fun j hj => (hexec j).trans (h.others j hj), h.callbacks⟩
  rw [hexec]
  exact h.context

/-- Moving from the owner makes the new executor the owner. -/
theorem move_owner (h : Owned cb owner params w) :
    Owned cb w.executors.length params (w.op (.move owner)).2 := by
  obtain ⟨ctx, hctx, hholds⟩ := h.context
  have hexec (j : ℕ) : (w.op (.move owner)).2.executor j =
      if j = w.executors.length then
        some { ctx with msg := ctx.msg.moveConstruct w.executors.length }
      else none := by
    rw [World.op, hctx, World.executor]
    simp only [Executor.moveConstruct, Option.map_some]
    rw [getD_append_one, List.length_set, getD_set_none]
    split_ifs with hnew hold
    · rfl
    · rfl
    · exact h.others j fun heq => hold ⟨heq, h.owner_lt⟩
  refine ⟨by simp [World.op], ⟨_, ?_, hholds.moveConstruct _⟩, fun j hj => ?_, h.callbacks⟩
  · rw [hexec, if_pos rfl]
  · rw [hexec, if_neg hj]

/-- Moving from any other executor makes one without a context. -/
theorem move_other (h : Owned cb owner params w) {i : ℕ} (hi : i ≠ owner) :
    Owned cb owner params (w.op (.move i)).2 := by
  have hexec (j : ℕ) : (w.op (.move i)).2.executor j = w.executor j := by
    rw [World.op, h.others i hi, World.executor]
    simp only [Executor.moveConstruct, Option.map_none]
    rw [getD_append_one, List.length_set, getD_set_none]
    split_ifs with hnew hold
    · rw [hnew, World.executor, List.getD_eq_getElem?_getD, List.getElem?_eq_none le_rfl]
      rfl
    · rw [hold.1, h.others i hi]
    · rfl
  have hlt : owner < (w.op (.move i)).2.executors.length := by
    have := h.owner_lt
    simp only [World.op, List.length_append, List.length_set, List.length_singleton]
    omega
  refine ⟨hlt, ?_, fun j hj => (hexec j).trans (h.others j hj), h.callbacks⟩
  rw [hexec]
  exact h.context

end Owned

theorem length_op (o : ExecutorOp) (w : World) :
    (w.op o).2.executors.length = w.executors.length + moveCount [o] := by
  cases o <;> simp [World.op, Outcome.within, moveCount]

/-- Through calls and moves the statement keeps its one owner. -/
theorem runOps_owned {cb : Callback} {owner : ℕ} {params : List Json} {w : World}
    (h : Owned cb owner params w) (ops : List ExecutorOp) :
    (w.runOps ops).executors.length = w.executors.length + moveCount ops ∧
      ∃ owner', Owned cb owner' (params ++ ownedParams owner w.executors.length ops)
        (w.runOps ops) := by
  induction ops generalizing owner params w with
  | nil => exact ⟨rfl, owner, by simpa [ownedParams, World.runOps] using h⟩
  | cons o rest ih =>
      have hcount : moveCount (o :: rest) = moveCount [o] + moveCount rest := by
        rw [← List.singleton_append, moveCount, List.countP_append]
        rfl
      have hlength := length_op o w
      have hstep : ∃ owner' params', Owned cb owner' params' (w.op o).2 ∧
          params ++ ownedParams owner w.executors.length (o :: rest) =
            params' ++ ownedParams owner' (w.op o).2.executors.length rest := by
        cases o with
        | params i p =>
            rw [hlength]
            by_cases hi : i = owner
            · subst hi
              exact ⟨i, _, h.params_owner p, by simp [ownedParams, moveCount]⟩
            · exact ⟨owner, _, h.params_other hi p, by simp [ownedParams, moveCount, hi]⟩
        | move i =>
            rw [hlength]
            by_cases hi : i = owner
            · subst hi
              exact ⟨_, _, h.move_owner, by simp [ownedParams, moveCount]⟩
            · exact ⟨owner, _, h.move_other hi, by simp [ownedParams, moveCount, hi]⟩
      obtain ⟨owner', params', howned, heq⟩ := hstep
      obtain ⟨hlen, owner'', hrun⟩ := ih howned
      refine ⟨?_, owner'', ?_⟩
      · rw [hcount, ← Nat.add_assoc, ← hlength]
        exact hlen
      · rw [heq]
        exact hrun

/-! ## Destruction -/

theorem destroy_none {w : World} {i : ℕ} (h : w.executor i = none) : w.destroy i = (none, w) := by
  rw [World.destroy, h]

theorem destroyAll_of_none {w : World} (h : ∀ i, w.executor i = none) (order : List ℕ) :
    w.destroyAll order = w := by
  induction order with
  | nil => rfl
  | cons i rest ih => rw [World.destroyAll, List.foldl_cons, destroy_none (h i)]; exact ih

/-- Destroying the owner hands the message over. -/
theorem Owned.destroy {cb : Callback} {owner : ℕ} {params : List Json} {w : World}
    (h : Owned cb owner params w) :
    (w.destroy owner).2.callbacks = [cb.withParams params] ∧
      ∀ i, (w.destroy owner).2.executor i = none := by
  obtain ⟨ctx, hctx, hholds⟩ := h.context
  rw [World.destroy, hctx]
  simp only [Outcome.within, hholds.finalMsg, h.callbacks, hholds.logEnabled,
    hholds.tracebackEnabled, World.executor]
  refine ⟨rfl, ?_⟩
  intro i
  rw [getD_set_none]
  split_ifs with hand
  · rfl
  · exact h.others i fun heq => hand ⟨heq, h.owner_lt⟩

/-- Whatever the order, it is the destruction of the owner that does something. -/
theorem Owned.destroyAll {cb : Callback} {owner : ℕ} {params : List Json} {w : World}
    (h : Owned cb owner params w) {order : List ℕ} (hmem : owner ∈ order) :
    w.destroyAll order = (w.destroy owner).2 := by
  induction order with
  | nil => exact absurd hmem List.not_mem_nil
  | cons i rest ih =>
      rw [World.destroyAll, List.foldl_cons]
      by_cases hi : i = owner
      · rw [hi]
        exact destroyAll_of_none h.destroy.2 rest
      · rw [destroy_none (h.others i hi)]
        exact ih ((List.mem_cons.mp hmem).resolve_left (Ne.symm hi))

/-- The message is handed over once. -/
theorem destroyAll_owned {cb : Callback} {owner : ℕ} {params : List Json} {w : World}
    (h : Owned cb owner params w) {order : List ℕ} (hmem : owner ∈ order) :
    (w.destroyAll order).callbacks = [cb.withParams params] := by
  rw [h.destroyAll hmem, h.destroy.1]

/-! ## A whole statement -/

/-- `should_log` or backtrace, at the time of the call. -/
def Logger.enabledFor (l : Logger) (call : LogCall) : Bool :=
  l.shouldLog call.lvl || l.tracer.enabled

/-- The text of the message, unless formatting it throws. -/
def LogCall.payload (call : LogCall) : Option Bytes :=
  match call.message with
  | .text msg => some msg
  | .formatted (.ok msg) => some msg
  | .formatted (.error _) => none

/-- What `executor_callback` is to be called with. -/
def Logger.callbackFor (l : Logger) (call : LogCall) (payload : Bytes) : Callback where
  msg := .new call.time call.threadId call.loc l.name call.lvl payload
  logEnabled := l.shouldLog call.lvl
  tracebackEnabled := l.tracer.enabled

/-- The three ways through `log`. -/
theorem Logger.log_cases (place : Addr) (call : LogCall) (l : Logger) :
    (l.enabledFor call = false ∧ l.log place call = (.ok none, l)) ∨
    (∃ payload, l.enabledFor call = true ∧ call.payload = some payload ∧
      l.log place call = (.ok (some ⟨.copyOf place (l.callbackFor call payload).msg,
        l.shouldLog call.lvl, l.tracer.enabled⟩), l)) ∨
    (∃ thrown, l.enabledFor call = true ∧ call.payload = none ∧
      call.message = .formatted (.error thrown) ∧
      l.log place call =
        match loggerCatch call.loc (some thrown) l.errHandler with
        | (none, h) => (.ok none, { l with errHandler := h })
        | (some thrown', h) => (.error thrown', { l with errHandler := h })) := by
  have hguard : (!l.shouldLog call.lvl && !l.tracer.enabled) = !l.enabledFor call := by
    rw [← Bool.not_or, Logger.enabledFor]
  obtain ⟨time, threadId, loc, lvl, message⟩ := call
  simp only [Logger.log, hguard]
  cases l.enabledFor ⟨time, threadId, loc, lvl, message⟩ with
  | false => exact .inl ⟨rfl, rfl⟩
  | true =>
      rcases message with msg | thrown | msg
      · exact .inr (.inl ⟨msg, rfl, rfl, rfl⟩)
      · exact .inr (.inr ⟨thrown, rfl, rfl, rfl, rfl⟩)
      · exact .inr (.inl ⟨msg, rfl, rfl, rfl⟩)

/-- An enabled call with a text makes an executor that owns its context. -/
theorem log_owned {l : Logger} {call : LogCall} {payload : Bytes} (hen : l.enabledFor call = true)
    (hpayload : call.payload = some payload) :
    let w := ((⟨l, [], []⟩ : World).log call).2
    Owned (l.callbackFor call payload) 0 [] w ∧ w.executors.length = 1 := by
  have hlog : (⟨l, [], []⟩ : World).log call = (none, ⟨l, [some ⟨.copyOf 0 (l.callbackFor call
      payload).msg, l.shouldLog call.lvl, l.tracer.enabled⟩], []⟩) := by
    rcases l.log_cases 0 call with ⟨hdis, _⟩ | ⟨payload', _, hpayload', hl⟩ | ⟨_, _, hnone, _⟩
    · exact absurd hen (by simp [hdis])
    · obtain rfl : payload' = payload := Option.some.inj (hpayload'.symm.trans hpayload)
      simp only [World.log, List.length_nil, hl]
      rfl
    · exact absurd hpayload (by simp [hnone])
  simp only [hlog]
  refine ⟨⟨by simp, ⟨_, rfl, Context.Holds.new 0 (l.callbackFor call payload) rfl⟩, ?_, rfl⟩, rfl⟩
  intro i hi
  cases i with
  | zero => exact absurd rfl hi
  | succ i => simp [World.executor]

/-- A call that is not enabled, or whose text cannot be formatted, makes no
executor with a context. -/
theorem log_idle {l : Logger} {call : LogCall}
    (h : l.enabledFor call = false ∨ call.payload = none) :
    let w := ((⟨l, [], []⟩ : World).log call).2
    (∀ i, w.executor i = none) ∧ w.callbacks = [] := by
  intro w
  obtain ⟨l', executors, hw, hnone⟩ : ∃ l' executors, w = ⟨l', executors, []⟩ ∧
      ∀ e ∈ executors, e = none := by
    rcases l.log_cases 0 call with ⟨_, hl⟩ | ⟨payload, hen, hpayload, _⟩ | ⟨thrown, _, _, _, hl⟩
    · exact ⟨l, [none], by simp only [w, World.log, List.length_nil, hl]; rfl, by simp⟩
    · rcases h with hdis | hnone
      · exact absurd hen (by simp [hdis])
      · exact absurd hpayload (by simp [hnone])
    · rcases hcatch : loggerCatch call.loc (some thrown) l.errHandler with ⟨_ | thrown', h'⟩
      · refine ⟨{ l with errHandler := h' }, [none], ?_, by simp⟩
        simp only [w, World.log, List.length_nil, hl, hcatch]
        rfl
      · refine ⟨{ l with errHandler := h' }, [], ?_, by simp⟩
        simp only [w, World.log, List.length_nil, hl, hcatch]
  rw [hw]
  refine ⟨fun i => ?_, rfl⟩
  rw [World.executor, List.getD_eq_getElem?_getD]
  cases hget : executors[i]? with
  | none => rfl
  | some e => exact hnone e (List.mem_of_getElem? hget)

theorem runOps_idle {w : World} (h : (∀ i, w.executor i = none) ∧ w.callbacks = [])
    (ops : List ExecutorOp) :
    (∀ i, (w.runOps ops).executor i = none) ∧ (w.runOps ops).callbacks = [] := by
  induction ops generalizing w with
  | nil => exact h
  | cons o rest ih =>
      have hstep : (∀ i, (w.op o).2.executor i = none) ∧ (w.op o).2.callbacks = [] := by
        refine ⟨fun i => ?_, by cases o <;> exact h.2⟩
        have hall (j : ℕ) : w.executors.getD j none = none := h.1 j
        cases o with
        | params j p =>
            rw [World.op, h.1 j, World.executor]
            simp only [Executor.call, Outcome.within]
            rw [getD_set_none, hall, ite_self]
        | move j =>
            rw [World.op, h.1 j, World.executor]
            simp only [Executor.moveConstruct, Option.map_none]
            rw [getD_append_one, getD_set_none, hall, ite_self, ite_self]
      exact ih hstep

/-- An enabled call with a text ends in one callback. -/
theorem callbacks_statement {l : Logger} {call : LogCall} {payload : Bytes}
    (hen : l.enabledFor call = true) (hpayload : call.payload = some payload)
    (ops : List ExecutorOp) {order : List ℕ}
    (horder : order.Perm (List.range (1 + moveCount ops))) :
    (World.statement call ops order l).callbacks =
      [(l.callbackFor call payload).withParams (ownedParams 0 1 ops)] := by
  obtain ⟨howned, hlength⟩ := log_owned hen hpayload
  obtain ⟨hcount, owner, hrun⟩ := runOps_owned howned ops
  have hmem : owner ∈ order := by
    have := hrun.owner_lt
    rw [horder.mem_iff, List.mem_range]
    omega
  rw [hlength, List.nil_append] at hrun
  exact destroyAll_owned hrun hmem

/-- Any other call ends in none. -/
theorem callbacks_statement_idle {l : Logger} {call : LogCall}
    (hidle : l.enabledFor call = false ∨ call.payload = none) (ops : List ExecutorOp)
    (order : List ℕ) : (World.statement call ops order l).callbacks = [] := by
  obtain ⟨hnone, hcallbacks⟩ := runOps_idle (log_idle hidle) ops
  rw [World.statement, destroyAll_of_none hnone]
  exact hcallbacks

theorem World.logger_runOps (ops : List ExecutorOp) (w : World) :
    (w.runOps ops).logger = w.logger := by
  induction ops generalizing w with
  | nil => rfl
  | cons o rest ih =>
      have hop : (w.op o).2.logger = w.logger := by cases o <;> rfl
      calc ((w.op o).2.runOps rest).logger
          = (w.op o).2.logger := ih (w.op o).2
        _ = w.logger := hop

/-! ### Where formatting throws -/

/-- What `log_` reports. -/
def formatReport (location : SourceLoc) : Thrown → Bytes
  | .std what => report location what
  | .other => ascii "Rethrowing unknown exception in logger"

/-- What it throws again. -/
def rethrown : Thrown → Option Thrown
  | .std _ => none
  | .other => some .other

/-- What gets out of `log_`: what the error handler throws, or else what is thrown again. -/
def Logger.formatThrows (l : Logger) (location : SourceLoc) (thrown : Thrown) : Option Thrown :=
  (l.errHandler.call (formatReport location thrown)).1.or (rethrown thrown)

/-- The logger after a report. -/
def Logger.reporting (text : Bytes) (l : Logger) : Logger :=
  { l with errHandler := { l.errHandler with reported := l.errHandler.reported ++ [text] } }

/-- The failure is reported; a disabled executor is returned, unless something gets out. -/
theorem Logger.log_format_error {l : Logger} {call : LogCall} {thrown : Thrown}
    (hen : l.enabledFor call = true) (hmsg : call.message = .formatted (.error thrown))
    (place : Addr) :
    l.log place call =
      ((l.formatThrows call.loc thrown).elim (.ok none) .error,
        l.reporting (formatReport call.loc thrown)) := by
  rcases l.log_cases place call with
    ⟨hdis, -⟩ | ⟨payload, -, hpayload, -⟩ | ⟨thrown', -, -, hmsg', hl⟩
  · rw [hen] at hdis
    cases hdis
  · rw [LogCall.payload, hmsg] at hpayload
    cases hpayload
  · obtain rfl : thrown = thrown' := by simpa using hmsg.symm.trans hmsg'
    rw [hl, Logger.formatThrows]
    cases thrown with
    | std what =>
        rw [formatReport, loggerCatch]
        cases hcall : (l.errHandler.call (report call.loc what)).1 with
        | none =>
            have hpair : l.errHandler.call (report call.loc what) =
                (none, (l.errHandler.call (report call.loc what)).2) := Prod.ext hcall rfl
            rw [hpair]
            rfl
        | some t =>
            have hpair : l.errHandler.call (report call.loc what) =
                (some t, (l.errHandler.call (report call.loc what)).2) := Prod.ext hcall rfl
            rw [hpair]
            rfl
    | other =>
        rw [formatReport, loggerCatch]
        cases hcall : (l.errHandler.call (ascii "Rethrowing unknown exception in logger")).1 with
        | none =>
            rw [Outcome.andThen_returned hcall]
            rfl
        | some t =>
            rw [Outcome.andThen_threw hcall]
            rfl

/-- Nothing that comes after `log_` touches the logger. -/
theorem logger_statement_format_error {l : Logger} {call : LogCall} {thrown : Thrown}
    (hen : l.enabledFor call = true) (hmsg : call.message = .formatted (.error thrown))
    (ops : List ExecutorOp) (order : List ℕ) :
    (World.statement call ops order l).logger = l.reporting (formatReport call.loc thrown) := by
  have hnone : call.payload = none := by rw [LogCall.payload, hmsg]
  have hidle := runOps_idle (log_idle (l := l) (.inr hnone)) ops
  have hlog : ((⟨l, [], []⟩ : World).log call).2.logger =
      l.reporting (formatReport call.loc thrown) := by
    rw [World.log, List.length_nil, Logger.log_format_error hen hmsg]
    cases l.formatThrows call.loc thrown <;> rfl
  rw [World.statement, destroyAll_of_none hidle.1, World.logger_runOps, hlog]

/-- An enabled call whose text could be formatted reaches `executor_callback`
exactly once, with the parameters merged on the way; any other call never
does.  Where formatting throws that is reported once, and nothing else is done to the
logger; `log_` returns a disabled executor, unless what was thrown is no `std::exception`
or the error handler throws. -/
theorem executor_callback_once (l : Logger) (call : LogCall) (ops : List ExecutorOp)
    (order : List ℕ) (horder : order.Perm (List.range (1 + moveCount ops))) :
    (∀ payload, l.enabledFor call = true → call.payload = some payload →
      (World.statement call ops order l).callbacks =
        [(l.callbackFor call payload).withParams (ownedParams 0 1 ops)]) ∧
    (l.enabledFor call = false ∨ call.payload = none →
      (World.statement call ops order l).callbacks = []) ∧
    (∀ key, (mergeParams (ownedParams 0 1 ops)).lookup key =
      (ownedParams 0 1 ops).reverse.findSome? fun p => OrdMap.lastValue key p.items) ∧
    (l.enabledFor call = false → ∀ place, l.log place call = (.ok none, l)) ∧
    ∀ thrown, l.enabledFor call = true → call.message = .formatted (.error thrown) →
      (∀ place, l.log place call =
        ((l.formatThrows call.loc thrown).elim (.ok none) .error,
          l.reporting (formatReport call.loc thrown))) ∧
      (World.statement call ops order l).logger =
        l.reporting (formatReport call.loc thrown) := by
  refine ⟨fun payload hen hpayload => callbacks_statement hen hpayload ops horder,
    fun hidle => callbacks_statement_idle hidle ops order, fun key => lookup_mergeParams key _,
    fun hdis place => ?_, fun thrown hen hmsg =>
      ⟨Logger.log_format_error hen hmsg, logger_statement_format_error hen hmsg ops order⟩⟩
  rcases l.log_cases place call with ⟨-, hl⟩ | ⟨payload, hen, -⟩ | ⟨thrown, hen, -⟩
  · exact hl
  · rw [hdis] at hen
    cases hen
  · rw [hdis] at hen
    cases hen

section Examples

/-- A logger without sinks that logs from `info` on. -/
def plainLogger : Logger where
  name := ascii "plain"
  level := .info
  flushLevel := .off
  sinks := []
  errHandler := ⟨none, []⟩
  tracer := .initial
  async := none

def infoCall (message : Message) : LogCall := ⟨0, 1, {}, .info, message⟩

/-- Two objects that overlap in a member. -/
def overlapping : List Json :=
  [.object [(ascii "a", .integer 1), (ascii "b", .integer 2)],
    .object [(ascii "b", .integer 3), (ascii "c", .integer 4)]]

/-- The first object is merged before the executor is moved, the second one after that, and a
call on the executor that was moved from adds nothing. -/
theorem executor_callback_once_moved :
    let call := infoCall (.text (ascii "x"))
    let ops : List ExecutorOp := [.params 0 (overlapping.getD 0 .null), .move 0,
      .params 1 (overlapping.getD 1 .null), .params 0 (.object [(ascii "d", .integer 5)])]
    (World.statement call ops [1, 0] plainLogger).callbacks =
        [(plainLogger.callbackFor call (ascii "x")).withParams overlapping] ∧
      (mergeParams overlapping).lookup (ascii "a") = some (.integer 1) ∧
      (mergeParams overlapping).lookup (ascii "b") = some (.integer 3) ∧
      (mergeParams overlapping).lookup (ascii "c") = some (.integer 4) ∧
      (mergeParams overlapping).lookup (ascii "d") = none := by
  intro call ops
  have honce := executor_callback_once plainLogger call ops [1, 0] (List.Perm.swap 0 1 [])
  exact ⟨honce.1 (ascii "x") rfl rfl, (honce.2.2.1 _).trans rfl, (honce.2.2.1 _).trans rfl,
    (honce.2.2.1 _).trans rfl, (honce.2.2.1 _).trans rfl⟩

/-- An enabled call whose arguments cannot be formatted is reported and makes
no executor. -/
theorem executor_callback_never_on_format_error :
    ¬ ∀ (l : Logger) (call : LogCall) (ops : List ExecutorOp) (order : List ℕ),
      order.Perm (List.range (1 + moveCount ops)) → l.enabledFor call = true →
        (World.statement call ops order l).callbacks.length = 1 := by
  intro h
  have hone := h plainLogger
    (infoCall (.formatted (.error (.std (ascii "argument not found"))))) [] [0]
    (List.Perm.refl _) rfl
  exact absurd hone (by decide)

end Examples

end Structlog
