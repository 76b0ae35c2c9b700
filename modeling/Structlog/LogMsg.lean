import Structlog.Json

/-!
# Log messages and their buffered copies

A `log_msg` refers to text and parameters that live elsewhere, a
`log_msg_buffer` owns a copy of them.  `LogMsg σ π` is the class over any kind
of reference: `LogMsg StringView Addr` is the object in memory, and
`Record = LogMsg Bytes Json` is what reading it yields.  Everything downstream
of the buffers works with records.

The buffered copy is modelled with its pointers.  An object at address `self`
has string views and a `params` pointer, and a copy or move is only right if
`update_string_views` makes them point into the new object.  `SelfContained` is
that invariant, and `selfContained_ofLogMsg`, `SelfContained.moveConstruct` and
`SelfContained.moveAssign` say that a copy or move keeps it, with the record that is read.

The range a formatter marks for colouring is not part of the record; the
formatters that use it carry it themselves.
-/

namespace Structlog

open Lib

/-- `log_msg` over references `σ` to text and `π` to parameters.  `time` is in
nanoseconds since the epoch. -/
structure LogMsg (σ π : Type*) where
  loggerName : σ
  level : Level
  time : ℤ
  threadId : ℕ
  source : SourceLoc
  payload : σ
  params : Option π

/-- A message with everything it refers to. -/
abbrev Record := LogMsg Bytes Json

/-- `log_msg() = default`. -/
instance : Inhabited Record :=
  ⟨{ loggerName := [], level := .off, time := 0, threadId := 0, source := {}, payload := [],
     params := none }⟩

/-- The constructors of `log_msg`: no parameters yet. -/
def LogMsg.new (time : ℤ) (threadId : ℕ) (loc : SourceLoc) (loggerName : Bytes) (lvl : Level)
    (msg : Bytes) : Record where
  loggerName := loggerName
  level := lvl
  time := time
  threadId := threadId
  source := loc
  payload := msg
  params := none

/-! ## References -/

/-- The address of an object that owns text or parameters. -/
abbrev Addr := ℕ

structure StringView where
  owner : Addr
  offset : ℕ
  size : ℕ
  deriving DecidableEq, Repr

/-- The character buffers and JSON objects there are. -/
structure Memory where
  text : Addr → Bytes
  json : Addr → Json

def StringView.read (mem : Memory) (view : StringView) : Bytes :=
  ((mem.text view.owner).drop view.offset).take view.size

/-- The characters of the view exist. -/
def StringView.Live (mem : Memory) (view : StringView) : Prop :=
  view.offset + view.size ≤ (mem.text view.owner).length

theorem StringView.length_read {mem : Memory} {view : StringView} (h : view.Live mem) :
    (view.read mem).length = view.size := by
  unfold StringView.Live at h
  simp only [StringView.read, List.length_take, List.length_drop]
  omega

/-- What a message says, its references followed. -/
def LogMsg.read (mem : Memory) (msg : LogMsg StringView Addr) : Record where
  loggerName := msg.loggerName.read mem
  level := msg.level
  time := msg.time
  threadId := msg.threadId
  source := msg.source
  payload := msg.payload.read mem
  params := msg.params.map mem.json

/-- Both views of a message exist. -/
structure LogMsg.Live (mem : Memory) (msg : LogMsg StringView Addr) : Prop where
  loggerName : msg.loggerName.Live mem
  payload : msg.payload.Live mem

/-! ## `log_msg_buffer` -/

structure LogMsgBuffer where
  msg : LogMsg StringView Addr
  buffer : Bytes
  paramsBuffer : Json

namespace LogMsgBuffer

def updateStringViews (self : Addr) (b : LogMsgBuffer) : LogMsgBuffer :=
  { b with
    msg :=
      { b.msg with
        loggerName := ⟨self, 0, b.msg.loggerName.size⟩
        payload := ⟨self, b.msg.loggerName.size, b.msg.payload.size⟩
        params := b.msg.params.map fun _ => self } }

/-- `log_msg_buffer(const log_msg &)`, constructing at `self`. -/
def ofLogMsg (mem : Memory) (self : Addr) (origMsg : LogMsg StringView Addr) : LogMsgBuffer :=
  updateStringViews self
    { msg := origMsg
      buffer := origMsg.loggerName.read mem ++ origMsg.payload.read mem
      paramsBuffer := (origMsg.params.map mem.json).getD .null }

/-- `log_msg_buffer(log_msg_buffer &&)`, constructing at `self`. -/
def moveConstruct (self : Addr) (other : LogMsgBuffer) : LogMsgBuffer :=
  updateStringViews self ⟨other.msg, other.buffer, other.paramsBuffer⟩

/-- `operator=(log_msg_buffer &&)` of the object at `self`.  Every member is
assigned, so nothing of the old value is left. -/
def moveAssign (self : Addr) (other : LogMsgBuffer) : LogMsgBuffer :=
  updateStringViews self ⟨other.msg, other.buffer, other.paramsBuffer⟩

/-- The memory that an object at `self` owns. -/
def memory (self : Addr) (b : LogMsgBuffer) : Memory where
  text a := if a = self then b.buffer else []
  json a := if a = self then b.paramsBuffer else .null

/-- What an object at `self` says, if it refers to itself only. -/
def record (self : Addr) (b : LogMsgBuffer) : Record := b.msg.read (b.memory self)

/-- The object refers to its own buffers and to nothing else. -/
structure SelfContained (here : Addr) (b : LogMsgBuffer) : Prop where
  loggerName : b.msg.loggerName.owner = here ∧ b.msg.loggerName.offset = 0
  payload : b.msg.payload.owner = here ∧ b.msg.payload.offset = b.msg.loggerName.size
  length_buffer : b.buffer.length = b.msg.loggerName.size + b.msg.payload.size
  params : ∀ a ∈ b.msg.params, a = here

/-- What both assignment operators assert: without parameters there is nothing
in the parameter buffer. -/
def ParamsAsserted (b : LogMsgBuffer) : Prop := b.msg.params = none → b.paramsBuffer = .null

theorem SelfContained.record_eq {self : Addr} {b : LogMsgBuffer} (h : b.SelfContained self) :
    b.record self =
      { loggerName := b.buffer.take b.msg.loggerName.size
        level := b.msg.level
        time := b.msg.time
        threadId := b.msg.threadId
        source := b.msg.source
        payload := b.buffer.drop b.msg.loggerName.size
        params := b.msg.params.map fun _ => b.paramsBuffer } := by
  have hpayload : (b.buffer.drop b.msg.loggerName.size).take b.msg.payload.size =
      b.buffer.drop b.msg.loggerName.size := by
    apply List.take_of_length_le
    rw [List.length_drop, h.length_buffer]
    omega
  have hparams : b.msg.params.map (fun a => if a = self then b.paramsBuffer else .null) =
      b.msg.params.map fun _ => b.paramsBuffer :=
    Option.map_congr fun a ha => if_pos (h.params a ha)
  simp [record, LogMsg.read, StringView.read, memory, h.loggerName.1, h.loggerName.2,
    h.payload.1, h.payload.2, hpayload, hparams]

/-- The side buffer is not read while `params` is null. -/
theorem record_paramsBuffer {self : Addr} {b : LogMsgBuffer} (h : b.msg.params = none)
    (j : Json) : record self { b with paramsBuffer := j } = b.record self := by
  simp [record, LogMsg.read, StringView.read, memory, h]

/-- Moving keeps the object whole and its record as it was. -/
theorem SelfContained.updateStringViews {self place : Addr} {b : LogMsgBuffer}
    (h : b.SelfContained self) :
    (b.updateStringViews place).SelfContained place ∧
      (b.updateStringViews place).record place = b.record self := by
  have hmoved : (b.updateStringViews place).SelfContained place :=
    { loggerName := ⟨rfl, rfl⟩
      payload := ⟨rfl, rfl⟩
      length_buffer := h.length_buffer
      params := fun a ha => by
        obtain ⟨_, _, rfl⟩ := Option.mem_map.mp ha
        rfl }
  refine ⟨hmoved, ?_⟩
  rw [hmoved.record_eq, h.record_eq]
  simp [LogMsgBuffer.updateStringViews, Function.comp_def]

theorem SelfContained.moveConstruct {self place : Addr} {b : LogMsgBuffer}
    (h : b.SelfContained self) :
    (moveConstruct place b).SelfContained place ∧
      (moveConstruct place b).record place = b.record self :=
  h.updateStringViews

theorem SelfContained.moveAssign {self place : Addr} {b : LogMsgBuffer}
    (h : b.SelfContained self) :
    (moveAssign place b).SelfContained place ∧
      (moveAssign place b).record place = b.record self :=
  h.updateStringViews

theorem ParamsAsserted.updateStringViews {b : LogMsgBuffer} (h : b.ParamsAsserted) (place : Addr) :
    (b.updateStringViews place).ParamsAsserted :=
  fun hnone => h (Option.map_eq_none_iff.mp hnone)

/-- The deep copy is whole and says what the original says. -/
theorem selfContained_ofLogMsg {mem : Memory} {origMsg : LogMsg StringView Addr}
    (h : origMsg.Live mem) (self : Addr) :
    (ofLogMsg mem self origMsg).SelfContained self ∧
      (ofLogMsg mem self origMsg).record self = origMsg.read mem := by
  have hname := StringView.length_read h.loggerName
  have hpayload := StringView.length_read h.payload
  have hcopy : (ofLogMsg mem self origMsg).SelfContained self :=
    { loggerName := ⟨rfl, rfl⟩
      payload := ⟨rfl, rfl⟩
      length_buffer := by
        simp [ofLogMsg, LogMsgBuffer.updateStringViews, hname, hpayload]
      params := fun a ha => by
        obtain ⟨_, _, rfl⟩ := Option.mem_map.mp ha
        rfl }
  refine ⟨hcopy, ?_⟩
  rw [hcopy.record_eq]
  simp only [ofLogMsg, LogMsgBuffer.updateStringViews, LogMsg.read, ← hname, List.take_left,
    List.drop_left]
  congr 1
  cases origMsg.params <;> rfl

theorem paramsAsserted_ofLogMsg (mem : Memory) (self : Addr) (origMsg : LogMsg StringView Addr) :
    (ofLogMsg mem self origMsg).ParamsAsserted := by
  intro hnone
  have : origMsg.params = none := Option.map_eq_none_iff.mp hnone
  simp [ofLogMsg, LogMsgBuffer.updateStringViews, this]

/-! ## Copies of a record

A record stands for a message somewhere in a caller's memory.  `copyOf` is the
deep copy of such a message; `stored` reads it after the move into a slot of a
ring, and `fetched` after the move out of that slot. -/

/-- A caller's memory that holds the texts and the parameters of a record. -/
def callerMemory (m : Record) : Memory where
  text a := if a = 0 then m.loggerName else m.payload
  json _ := m.params.getD .null

def callerMsg (m : Record) : LogMsg StringView Addr where
  loggerName := ⟨0, 0, m.loggerName.length⟩
  level := m.level
  time := m.time
  threadId := m.threadId
  source := m.source
  payload := ⟨1, 0, m.payload.length⟩
  params := m.params.map fun _ => 2

theorem live_callerMsg (m : Record) : (callerMsg m).Live (callerMemory m) := by
  constructor <;> simp [callerMsg, callerMemory, StringView.Live]

theorem read_callerMsg (m : Record) : (callerMsg m).read (callerMemory m) = m := by
  obtain ⟨loggerName, level, time, threadId, source, payload, params⟩ := m
  cases params <;> simp [callerMsg, callerMemory, LogMsg.read, StringView.read]

def copyOf (self : Addr) (m : Record) : LogMsgBuffer :=
  ofLogMsg (callerMemory m) self (callerMsg m)

/-- The deep copy of a caller's message. -/
theorem selfContained_copyOf (self : Addr) (m : Record) :
    (copyOf self m).SelfContained self ∧ (copyOf self m).record self = m := by
  have := selfContained_ofLogMsg (live_callerMsg m) self
  rwa [read_callerMsg] at this

/-- What the slot of a ring at `slot` says after
`v_[i] = log_msg_buffer{msg}`. -/
def stored (slot : Addr) (m : Record) : Record :=
  (moveAssign slot (copyOf 0 m)).record slot

@[simp] theorem stored_eq (slot : Addr) (m : Record) : stored slot m = m := by
  have hcopy := selfContained_copyOf 0 m
  rw [stored, hcopy.1.moveAssign.2, hcopy.2]

/-- What a local object at `place` says after the message is moved out of its
slot again. -/
def fetched (slot place : Addr) (m : Record) : Record :=
  (moveAssign place (moveAssign slot (copyOf 0 m))).record place

@[simp] theorem fetched_eq (slot place : Addr) (m : Record) : fetched slot place m = m := by
  have hcopy := selfContained_copyOf 0 m
  rw [fetched, hcopy.1.moveAssign.1.moveAssign.2, hcopy.1.moveAssign.2, hcopy.2]

end LogMsgBuffer

end Structlog
