import Mathlib.Logic.Function.Basic
import Structlog.LogMsg
import Structlog.Lib.Runs

/-!
# Buffered messages in memory

A program makes, copies, moves and destroys `log_msg_buffer` objects, while the callers
whose text the first copies were taken from go on to use it for something else.  `Heap` is
that program's memory, with pointers; `Heap.step` refuses a read of what is not there and
an assertion that fails.

`MessageStore` says what the objects are for.  It has no pointers: an object holds a
message, and a copy of it holds the same.  `Represents` relates the two, the heap simulates
the store (`simulates_step`), and so no pointer is ever seen to point elsewhere
(`log_msg_buffer_refines`).

What a move leaves in its source is not looked at again until that is assigned to or
destroyed: the store refuses to read it.
-/

namespace Structlog

open Lib

/-! ## The operations -/

/-- What is done with the objects.  A move leaves something in the buffer of its source:
short text stays, other text is taken away. -/
inductive BufferOp
  /-- The callers change or free what they own. -/
  | callers (external : Memory)
  | defaultConstruct (self : Addr)
  | construct (self : Addr) (origMsg : LogMsg StringView Addr)
  | copyConstruct (self other : Addr)
  | moveConstruct (self other : Addr) (left : Bytes)
  | copyAssign (self other : Addr)
  | moveAssign (self other : Addr) (left : Bytes)
  | destroy (self : Addr)

/-- `empty()`. -/
def Json.empty : Json → Bool
  | null => true
  | array elements => elements.isEmpty
  | object members => members.isEmpty
  | _ => false

namespace LogMsgBuffer

/-- `log_msg_buffer() = default`. -/
def initial : LogMsgBuffer where
  msg :=
    { loggerName := ⟨0, 0, 0⟩
      level := .off
      time := 0
      threadId := 0
      source := {}
      payload := ⟨0, 0, 0⟩
      params := none }
  buffer := []
  paramsBuffer := .null

/-- `log_msg_buffer(const log_msg_buffer &)`, which reads the text through the views. -/
def copyConstruct (mem : Memory) (self : Addr) (other : LogMsgBuffer) : LogMsgBuffer :=
  ofLogMsg mem self other.msg

/-- `operator=(const log_msg_buffer &)`, but for the assertion. -/
def copyAssign (self : Addr) (other : LogMsgBuffer) : LogMsgBuffer :=
  updateStringViews self ⟨other.msg, other.buffer, other.paramsBuffer⟩

/-- `other` after a move from it. -/
def movedFrom (left : Bytes) (other : LogMsgBuffer) : LogMsgBuffer :=
  { other with buffer := left, paramsBuffer := .null }

/-- `params || params_buffer.empty()`. -/
def asserted (b : LogMsgBuffer) : Bool := b.msg.params.isSome || b.paramsBuffer.empty

end LogMsgBuffer

instance (mem : Memory) (view : StringView) : Decidable (view.Live mem) :=
  inferInstanceAs (Decidable (_ ≤ _))

instance (mem : Memory) (msg : LogMsg StringView Addr) : Decidable (msg.Live mem) :=
  decidable_of_iff (msg.loggerName.Live mem ∧ msg.payload.Live mem)
    ⟨fun h => ⟨h.1, h.2⟩, fun h => ⟨h.1, h.2⟩⟩

/-! ## Memory with pointers -/

inductive Cell
  | free
  | live (b : LogMsgBuffer)
  | movedFrom (b : LogMsgBuffer)

structure Heap where
  /-- What the callers own. -/
  external : Memory
  cells : Addr → Cell

namespace Heap

def initial (external : Memory) : Heap := ⟨external, fun _ => .free⟩

/-- What is at an address. -/
def memory (h : Heap) : Memory where
  text a :=
    match h.cells a with
    | .free => h.external.text a
    | .live b | .movedFrom b => b.buffer
  json a :=
    match h.cells a with
    | .free => h.external.json a
    | .live b | .movedFrom b => b.paramsBuffer

def set (a : Addr) (c : Cell) (h : Heap) : Heap := { h with cells := Function.update h.cells a c }

/-- An object is made where there is none. -/
def construct (self : Addr) (b : LogMsgBuffer) (h : Heap) : Option Heap :=
  match h.cells self with
  | .free => some (h.set self (.live b))
  | _ => none

/-- An object is assigned to, which asserts. -/
def assign (self : Addr) (b : LogMsgBuffer) (h : Heap) : Option Heap :=
  match h.cells self with
  | .free => none
  | _ => if b.asserted then some (h.set self (.live b)) else none

/-- The object that is copied or moved. -/
def source (other : Addr) (h : Heap) : Option LogMsgBuffer :=
  match h.cells other with
  | .live b => some b
  | _ => none

def step (h : Heap) : BufferOp → Option Heap
  | .callers external => some { h with external }
  | .defaultConstruct self => h.construct self .initial
  | .construct self origMsg =>
      if origMsg.Live h.memory then h.construct self (.ofLogMsg h.memory self origMsg) else none
  | .copyConstruct self other =>
      (h.source other).bind fun b =>
        if b.msg.Live h.memory then h.construct self (.copyConstruct h.memory self b) else none
  | .moveConstruct self other left =>
      (h.source other).bind fun b =>
        (h.construct self (.moveConstruct self b)).map (set other (.movedFrom (b.movedFrom left)))
  | .copyAssign self other =>
      if self = other then none
      else (h.source other).bind fun b => h.assign self (.copyAssign self b)
  | .moveAssign self other left =>
      if self = other then none
      else
        (h.source other).bind fun b =>
          (h.assign self (.moveAssign self b)).map (set other (.movedFrom (b.movedFrom left)))
  | .destroy self =>
      match h.cells self with
      | .free => none
      | _ => some (h.set self .free)

end Heap

/-! ## What the objects are for -/

/-- An object holds the message that it was made from; one that was made from nothing holds
none. -/
inductive Slot
  | free
  | holds (origin : Option Record)
  | movedFrom (left : Bytes)

structure MessageStore where
  external : Memory
  slots : Addr → Slot

namespace MessageStore

def initial (external : Memory) : MessageStore := ⟨external, fun _ => .free⟩

/-- The text of a message is its name and its payload. -/
def memory (s : MessageStore) : Memory where
  text a :=
    match s.slots a with
    | .free => s.external.text a
    | .holds (some m) => m.loggerName ++ m.payload
    | .holds none => []
    | .movedFrom left => left
  json a :=
    match s.slots a with
    | .free => s.external.json a
    | .holds (some m) => m.params.getD .null
    | .holds none | .movedFrom _ => .null

def set (a : Addr) (slot : Slot) (s : MessageStore) : MessageStore :=
  { s with slots := Function.update s.slots a slot }

def construct (self : Addr) (origin : Option Record) (s : MessageStore) : Option MessageStore :=
  match s.slots self with
  | .free => some (s.set self (.holds origin))
  | _ => none

def assign (self : Addr) (origin : Option Record) (s : MessageStore) : Option MessageStore :=
  match s.slots self with
  | .free => none
  | _ => some (s.set self (.holds origin))

def source (other : Addr) (s : MessageStore) : Option (Option Record) :=
  match s.slots other with
  | .holds origin => some origin
  | _ => none

/-- The same operations on messages as values: a new message must exist where it is made
from, and only one that has not been moved away is copied or moved, to another object. -/
def step (s : MessageStore) : BufferOp → Option MessageStore
  | .callers external => some { s with external }
  | .defaultConstruct self => s.construct self none
  | .construct self origMsg =>
      if origMsg.Live s.memory then s.construct self (some (origMsg.read s.memory)) else none
  | .copyConstruct self other => (s.source other).bind fun origin => s.construct self origin
  | .moveConstruct self other left =>
      (s.source other).bind fun origin =>
        (s.construct self origin).map (set other (.movedFrom left))
  | .copyAssign self other =>
      if self = other then none
      else (s.source other).bind fun origin => s.assign self origin
  | .moveAssign self other left =>
      if self = other then none
      else
        (s.source other).bind fun origin =>
          (s.assign self origin).map (set other (.movedFrom left))
  | .destroy self =>
      match s.slots self with
      | .free => none
      | _ => some (s.set self .free)

end MessageStore

/-! ## One object -/

namespace LogMsgBuffer

/-- An object that has been made from nothing. -/
structure Blank (b : LogMsgBuffer) : Prop where
  loggerName : b.msg.loggerName.offset = 0 ∧ b.msg.loggerName.size = 0
  payload : b.msg.payload.offset = 0 ∧ b.msg.payload.size = 0
  params : b.msg.params = none
  buffer : b.buffer = []
  paramsBuffer : b.paramsBuffer = .null

/-- The object `here` says what its origin says, and refers to nothing else. -/
structure Carries (here : Addr) (b : LogMsgBuffer) (m : Record) : Prop where
  whole : b.SelfContained here
  asserted : b.ParamsAsserted
  record : b.record here = m

/-- The object at `self` is right for its origin. -/
def Holds (self : Addr) (b : LogMsgBuffer) : Option Record → Prop
  | none => b.Blank
  | some m => b.Carries self m

variable {self place : Addr} {b : LogMsgBuffer} {origin : Option Record} {m : Record}

theorem ParamsAsserted.asserted (h : b.ParamsAsserted) : b.asserted = true := by
  cases hparams : b.msg.params with
  | none => simp [LogMsgBuffer.asserted, hparams, h hparams, Json.empty]
  | some a => simp [LogMsgBuffer.asserted, hparams]

theorem holds_initial (self : Addr) : initial.Holds self none :=
  ⟨⟨rfl, rfl⟩, ⟨rfl, rfl⟩, rfl, rfl, rfl⟩

/-- Both moves and the copy assignment take the members over and set the pointers right. -/
theorem Holds.updateStringViews (h : b.Holds self origin) (place : Addr) :
    (b.updateStringViews place).Holds place origin := by
  cases origin with
  | none =>
      exact
        { loggerName := ⟨rfl, h.loggerName.2⟩
          payload := ⟨h.loggerName.2, h.payload.2⟩
          params := Option.map_eq_none_iff.mpr h.params
          buffer := h.buffer
          paramsBuffer := h.paramsBuffer }
  | some m =>
      obtain ⟨hwhole, hrecord⟩ : (b.updateStringViews place).SelfContained place ∧
        (b.updateStringViews place).record place = b.record self := h.whole.updateStringViews
      exact ⟨hwhole, h.asserted.updateStringViews place, hrecord.trans h.record⟩

theorem Holds.asserted (h : b.Holds self origin) : b.asserted = true := by
  cases origin with
  | none => exact ParamsAsserted.asserted fun _ => h.paramsBuffer
  | some m => exact ParamsAsserted.asserted (Carries.asserted h)

theorem SelfContained.length_parts (h : b.SelfContained self) :
    b.msg.loggerName.offset + b.msg.loggerName.size ≤ b.buffer.length ∧
      b.msg.payload.offset + b.msg.payload.size ≤ b.buffer.length := by
  rw [h.loggerName.2, h.payload.2, h.length_buffer]
  omega

/-- What an object refers to is there. -/
theorem Holds.live (h : b.Holds self origin) {mem : Memory} (htext : mem.text self = b.buffer) :
    b.msg.Live mem := by
  cases origin with
  | none =>
      constructor
      case loggerName => simp [StringView.Live, h.loggerName.1, h.loggerName.2]
      case payload => simp [StringView.Live, h.payload.1, h.payload.2]
  | some m =>
      obtain ⟨hname, hpayload⟩ := h.whole.length_parts
      constructor
      case loggerName =>
        rw [StringView.Live, h.whole.loggerName.1, htext]
        exact hname
      case payload =>
        rw [StringView.Live, h.whole.payload.1, htext]
        exact hpayload

/-- An object that refers to itself alone reads the same in any memory that has it. -/
theorem SelfContained.read_eq (h : b.SelfContained self) {mem : Memory}
    (htext : mem.text self = b.buffer) (hjson : mem.json self = b.paramsBuffer) :
    b.msg.read mem = b.record self := by
  have hparams : b.msg.params.map mem.json = b.msg.params.map (b.memory self).json := by
    apply Option.map_congr
    intro a ha
    rw [h.params a ha, hjson]
    exact (if_pos rfl).symm
  have hown : (b.memory self).text self = b.buffer := if_pos rfl
  rw [record, LogMsg.read, LogMsg.read, hparams, StringView.read, StringView.read,
    StringView.read, StringView.read, h.loggerName.1, h.payload.1, htext, hown]

/-- A copy of a copy is made through the views of the first. -/
theorem Holds.copyConstruct (h : b.Holds self origin) {mem : Memory}
    (htext : mem.text self = b.buffer) (hjson : mem.json self = b.paramsBuffer) (place : Addr) :
    (copyConstruct mem place b).Holds place origin := by
  have hlive := h.live htext
  cases origin with
  | none =>
      have hempty {view : StringView} (hview : view.size = 0) : view.read mem = [] := by
        rw [StringView.read, hview, List.take_zero]
      exact
        { loggerName := ⟨rfl, h.loggerName.2⟩
          payload := ⟨h.loggerName.2, h.payload.2⟩
          params := Option.map_eq_none_iff.mpr h.params
          buffer := by
            rw [LogMsgBuffer.copyConstruct, ofLogMsg, LogMsgBuffer.updateStringViews,
              hempty h.loggerName.2, hempty h.payload.2]
            rfl
          paramsBuffer := by
            rw [LogMsgBuffer.copyConstruct, ofLogMsg, LogMsgBuffer.updateStringViews, h.params]
            rfl }
  | some m =>
      obtain ⟨hwhole, hrecord⟩ := selfContained_ofLogMsg hlive place
      refine ⟨hwhole, paramsAsserted_ofLogMsg mem place b.msg, ?_⟩
      calc (copyConstruct mem place b).record place
          = b.msg.read mem := hrecord
        _ = b.record self := h.whole.read_eq htext hjson
        _ = m := h.record

/-- The text and the parameters of an object, from the message it holds. -/
theorem Carries.contents (h : b.Carries self m) :
    b.buffer = m.loggerName ++ m.payload ∧ b.paramsBuffer = m.params.getD .null := by
  rw [← h.record, h.whole.record_eq]
  dsimp only
  refine ⟨(List.take_append_drop _ _).symm, ?_⟩
  cases hparams : b.msg.params with
  | none => exact h.asserted hparams
  | some a => rfl

end LogMsgBuffer

/-! ## The heap against the store -/

/-- A cell of the heap is right for the slot of the store. -/
inductive Represents (here : Addr) : Cell → Slot → Prop
  | free : Represents here .free .free
  | live {b : LogMsgBuffer} {origin : Option Record} (h : b.Holds here origin) :
      Represents here (.live b) (.holds origin)
  | movedFrom {b : LogMsgBuffer} (h : b.paramsBuffer = .null) :
      Represents here (.movedFrom b) (.movedFrom b.buffer)

structure Simulates (h : Heap) (s : MessageStore) : Prop where
  external : h.external = s.external
  cells : ∀ a, Represents a (h.cells a) (s.slots a)

namespace Simulates

variable {h : Heap} {s s' : MessageStore}

theorem initial (external : Memory) : Simulates (.initial external) (.initial external) :=
  ⟨rfl, fun _ => .free⟩

theorem set (hsim : Simulates h s) {a : Addr} {c : Cell} {slot : Slot}
    (hrep : Represents a c slot) : Simulates (h.set a c) (s.set a slot) := by
  refine ⟨hsim.external, ?_⟩
  intro other
  unfold Heap.set MessageStore.set
  dsimp only
  by_cases heq : other = a
  · rw [heq, Function.update_self, Function.update_self]
    exact hrep
  · rw [Function.update_of_ne heq, Function.update_of_ne heq]
    exact hsim.cells other

/-- Both memories read the same. -/
theorem memory (hsim : Simulates h s) : h.memory = s.memory := by
  unfold Heap.memory MessageStore.memory
  rw [Memory.mk.injEq, hsim.external]
  constructor
  all_goals
    funext a
    have hcell := hsim.cells a
    generalize h.cells a = c at hcell
    generalize s.slots a = slot at hcell
    cases hcell with
    | free => rfl
    | movedFrom hjson => first | rfl | exact hjson
    | @live b origin hb =>
        cases origin with
        | none => first | exact hb.buffer | exact hb.paramsBuffer
        | some m => first | exact hb.contents.1 | exact hb.contents.2

/-- An object is made in the heap where one is made in the store. -/
theorem construct (hsim : Simulates h s) {here : Addr} {b : LogMsgBuffer}
    {origin : Option Record} (hb : b.Holds here origin)
    (hs : s.construct here origin = some s') :
    ∃ h', h.construct here b = some h' ∧ Simulates h' s' := by
  have hset := hsim.set (.live hb)
  have hcell := hsim.cells here
  unfold MessageStore.construct at hs
  unfold Heap.construct
  generalize s.slots here = slot at hs hcell
  generalize h.cells here = c at hcell
  cases hcell with
  | free =>
      obtain rfl := Option.some.inj hs
      exact ⟨_, rfl, hset⟩
  | live _ => cases hs
  | movedFrom _ => cases hs

/-- An object is assigned to where one is in the store, and the assertion holds. -/
theorem assign (hsim : Simulates h s) {here : Addr} {b : LogMsgBuffer}
    {origin : Option Record} (hb : b.Holds here origin) (hs : s.assign here origin = some s') :
    ∃ h', h.assign here b = some h' ∧ Simulates h' s' := by
  have hset := hsim.set (.live hb)
  have hcell := hsim.cells here
  unfold MessageStore.assign at hs
  unfold Heap.assign
  rw [hb.asserted]
  generalize s.slots here = slot at hs hcell
  generalize h.cells here = c at hcell
  cases hcell with
  | free => cases hs
  | live _ =>
      obtain rfl := Option.some.inj hs
      exact ⟨_, rfl, hset⟩
  | movedFrom _ =>
      obtain rfl := Option.some.inj hs
      exact ⟨_, rfl, hset⟩

/-- The source of a copy or a move. -/
theorem source (hsim : Simulates h s) {other : Addr} {origin : Option Record}
    (hs : s.source other = some origin) :
    ∃ b, h.source other = some b ∧ b.Holds other origin ∧
      h.memory.text other = b.buffer ∧ h.memory.json other = b.paramsBuffer := by
  have hcell := hsim.cells other
  unfold MessageStore.source at hs
  unfold Heap.source Heap.memory
  dsimp only
  generalize s.slots other = slot at hs hcell
  generalize h.cells other = c at hcell
  cases hcell with
  | free => cases hs
  | movedFrom _ => cases hs
  | @live b _ hb =>
      obtain rfl := Option.some.inj hs
      exact ⟨b, rfl, hb, rfl, rfl⟩

/-- The source of a move afterwards. -/
theorem moved (hsim : Simulates h s) (other : Addr) (b : LogMsgBuffer) (left : Bytes) :
    Simulates (h.set other (.movedFrom (b.movedFrom left))) (s.set other (.movedFrom left)) :=
  hsim.set (.movedFrom (b := b.movedFrom left) rfl)

end Simulates

theorem simulates_step (h : Heap) (s : MessageStore) (op : BufferOp) (s' : MessageStore)
    (hsim : Simulates h s) (hs : s.step op = some s') :
    ∃ h', h.step op = some h' ∧ Simulates h' s' := by
  cases op with
  | callers external =>
      obtain rfl := Option.some.inj hs
      exact ⟨_, rfl, rfl, hsim.cells⟩
  | defaultConstruct self => exact hsim.construct (LogMsgBuffer.holds_initial self) hs
  | construct self origMsg =>
      rw [MessageStore.step] at hs
      split_ifs at hs with hlive
      rw [Heap.step, hsim.memory, if_pos hlive]
      obtain ⟨hwhole, hrecord⟩ := LogMsgBuffer.selfContained_ofLogMsg hlive self
      have hholds : (LogMsgBuffer.ofLogMsg s.memory self origMsg).Holds self
          (some (origMsg.read s.memory)) :=
        ⟨hwhole, LogMsgBuffer.paramsAsserted_ofLogMsg s.memory self origMsg, hrecord⟩
      exact hsim.construct hholds hs
  | copyConstruct self other =>
      obtain ⟨origin, horigin, hs⟩ := Option.bind_eq_some_iff.mp hs
      obtain ⟨b, hb, hholds, htext, hjson⟩ := hsim.source horigin
      rw [Heap.step, hb, Option.bind_some, if_pos (hholds.live htext)]
      exact hsim.construct (hholds.copyConstruct htext hjson self) hs
  | moveConstruct self other left =>
      obtain ⟨origin, horigin, hs⟩ := Option.bind_eq_some_iff.mp hs
      obtain ⟨made, hmade, rfl⟩ := Option.map_eq_some_iff.mp hs
      obtain ⟨b, hb, hholds, -⟩ := hsim.source horigin
      -- The new object takes the source's buffer over, and points its views into itself.
      obtain ⟨h', hh', hsim'⟩ := hsim.construct (hholds.updateStringViews self) hmade
      rw [Heap.step, hb, Option.bind_some]
      exact ⟨_, Option.map_eq_some_iff.mpr ⟨h', hh', rfl⟩, hsim'.moved other b left⟩
  | copyAssign self other =>
      rw [MessageStore.step] at hs
      split_ifs at hs with hself
      obtain ⟨origin, horigin, hs⟩ := Option.bind_eq_some_iff.mp hs
      obtain ⟨b, hb, hholds, -⟩ := hsim.source horigin
      rw [Heap.step, if_neg hself, hb, Option.bind_some]
      exact hsim.assign (hholds.updateStringViews self) hs
  | moveAssign self other left =>
      rw [MessageStore.step] at hs
      split_ifs at hs with hself
      obtain ⟨origin, horigin, hs⟩ := Option.bind_eq_some_iff.mp hs
      obtain ⟨made, hmade, rfl⟩ := Option.map_eq_some_iff.mp hs
      obtain ⟨b, hb, hholds, -⟩ := hsim.source horigin
      obtain ⟨h', hh', hsim'⟩ := hsim.assign (hholds.updateStringViews self) hmade
      rw [Heap.step, if_neg hself, hb, Option.bind_some]
      exact ⟨_, Option.map_eq_some_iff.mpr ⟨h', hh', rfl⟩, hsim'.moved other b left⟩
  | destroy self =>
      -- Only what is there can be destroyed, moved from or not.
      have hset := hsim.set (a := self) .free
      have hcell := hsim.cells self
      rw [MessageStore.step] at hs
      rw [Heap.step]
      generalize s.slots self = slot at hs hcell
      generalize h.cells self = c at hcell
      cases hcell with
      | free => cases hs
      | live _ =>
          obtain rfl := Option.some.inj hs
          exact ⟨_, rfl, hset⟩
      | movedFrom _ =>
          obtain rfl := Option.some.inj hs
          exact ⟨_, rfl, hset⟩

/-! ## A run -/

/-- The object `here` is a deep copy of the message `m`. -/
structure DeepCopy (heap : Heap) (here : Addr) (b : LogMsgBuffer) (m : Record) : Prop where
  buffer : b.buffer = m.loggerName ++ m.payload
  loggerName : b.msg.loggerName = ⟨here, 0, m.loggerName.length⟩
  payload : b.msg.payload = ⟨here, m.loggerName.length, m.payload.length⟩
  params : b.msg.params = none ∨ b.msg.params = some here
  paramsBuffer : b.msg.params = none → b.paramsBuffer = .null
  /-- What it says, all its pointers followed. -/
  reads : b.msg.read heap.memory = m

theorem LogMsgBuffer.Carries.deepCopy {heap : Heap} {here : Addr} {b : LogMsgBuffer} {m : Record}
    (h : b.Carries here m) (hcell : heap.cells here = .live b) : DeepCopy heap here b m := by
  have htext : heap.memory.text here = b.buffer := by simp [Heap.memory, hcell]
  have hjson : heap.memory.json here = b.paramsBuffer := by simp [Heap.memory, hcell]
  have hreads := (h.whole.read_eq htext hjson).trans h.record
  have hholds : b.Holds here (some m) := h
  have hlive := hholds.live htext
  have hname : m.loggerName.length = b.msg.loggerName.size := by
    rw [← hreads]
    exact StringView.length_read hlive.loggerName
  have hpayload : m.payload.length = b.msg.payload.size := by
    rw [← hreads]
    exact StringView.length_read hlive.payload
  constructor
  case buffer => exact h.contents.1
  case loggerName =>
    rw [hname, ← h.whole.loggerName.1, ← h.whole.loggerName.2]
  case payload =>
    rw [hname, hpayload, ← h.whole.payload.2, ← h.whole.payload.1]
  case params =>
    cases hparams : b.msg.params with
    | none => exact .inl rfl
    | some a => exact .inr (congrArg some (h.whole.params a hparams))
  case paramsBuffer => exact h.asserted
  case reads => exact hreads

/-- Where the store holds a message, the heap has a deep copy of it. -/
theorem Simulates.held {heap : Heap} {store : MessageStore} (hsim : Simulates heap store)
    {here : Addr} {origin : Option Record} (hslot : store.slots here = .holds origin) :
    ∃ b, heap.cells here = .live b ∧ ∀ m ∈ origin, DeepCopy heap here b m := by
  have hrep := hsim.cells here
  rw [hslot] at hrep
  generalize hcell : heap.cells here = c at hrep
  cases hrep with
  | @live b _ hb =>
      refine ⟨b, rfl, ?_⟩
      rintro m rfl
      exact LogMsgBuffer.Carries.deepCopy hb hcell

/-- Where a program does with messages as values what it does with the objects, nothing that
is not there is read and no assertion fails.  An object that has not been moved from holds
a message, or was made from nothing, and it is a deep copy of the message that it holds. -/
theorem log_msg_buffer_refines (external : Memory) (ops : List BufferOp) (store : MessageStore)
    (hops : Runs.partialRun MessageStore.step (.initial external) ops = some store) :
    ∃ heap, Runs.partialRun Heap.step (.initial external) ops = some heap ∧
      (∀ here b, heap.cells here = .live b → ∃ origin, store.slots here = .holds origin) ∧
      ∀ here origin, store.slots here = .holds origin →
        ∃ b, heap.cells here = .live b ∧ ∀ m ∈ origin, DeepCopy heap here b m := by
  obtain ⟨heap, hrun, hsim⟩ := Runs.partialRun_simulates simulates_step
    (Simulates.initial external) hops
  refine ⟨heap, hrun, ?_, fun here origin hslot => hsim.held hslot⟩
  intro here b hcell
  have hrep := hsim.cells here
  rw [hcell] at hrep
  generalize store.slots here = slot at hrep
  cases hrep with
  | @live _ origin _ => exact ⟨origin, rfl⟩

/-- A caller's texts at 0 and 1, and its parameters. -/
def callersText : Memory where
  text a := if a = 0 then ascii "app" else ascii "started"
  json _ := .integer 7

/-- A message over them, with parameters or without. -/
def callersMsg (params : Option Addr) : LogMsg StringView Addr where
  loggerName := ⟨0, 0, 3⟩
  level := .info
  time := 0
  threadId := 1
  source := {}
  payload := ⟨1, 0, 7⟩
  params := params

/-- A slot at 20 that is used for a message with parameters and then for one without; the
first is moved out to 30, and the second copied to 40 after the texts are gone. -/
def reusedSlot : List BufferOp :=
  [.defaultConstruct 20, .defaultConstruct 30,
    .construct 10 (callersMsg (some 2)), .moveAssign 20 10 [], .destroy 10,
    .moveAssign 30 20 [],
    .construct 10 (callersMsg none), .moveAssign 20 10 (ascii "appstarted"), .destroy 10,
    .callers ⟨fun _ => [], fun _ => .null⟩, .copyConstruct 40 20]

theorem log_msg_buffer_refines_reusedSlot :
    ∃ heap, Runs.partialRun Heap.step (.initial callersText) reusedSlot = some heap ∧
      (∃ b, heap.cells 30 = .live b ∧ b.buffer = ascii "appstarted" ∧
        b.msg.params = some 30 ∧ b.paramsBuffer = .integer 7) ∧
      ∃ b, heap.cells 40 = .live b ∧ b.buffer = ascii "appstarted" ∧ b.msg.params = none := by
  have hsome : (Runs.partialRun MessageStore.step (.initial callersText) reusedSlot).isSome := rfl
  obtain ⟨heap, hrun, -, hheld⟩ :=
    log_msg_buffer_refines callersText reusedSlot _ (Option.some_get hsome).symm
  obtain ⟨b, hb, hdeep⟩ := hheld 30 (some ((callersMsg (some 2)).read callersText)) rfl
  obtain ⟨b', hb', hdeep'⟩ := hheld 40 (some ((callersMsg none).read callersText)) rfl
  have hcopy := hdeep _ rfl
  have hcopy' := hdeep' _ rfl
  have hmapped : b.msg.params.map heap.memory.json = some (.integer 7) :=
    congrArg LogMsg.params hcopy.reads
  have hmapped' : b'.msg.params.map heap.memory.json = none :=
    congrArg LogMsg.params hcopy'.reads
  refine ⟨heap, hrun, ⟨b, hb, hcopy.buffer, ?_⟩, b', hb', hcopy'.buffer, ?_⟩
  · rcases hcopy.params with hnone | hself
    · rw [hnone] at hmapped
      cases hmapped
    · rw [hself, Option.map_some] at hmapped
      have hjson : heap.memory.json 30 = b.paramsBuffer := by simp [Heap.memory, hb]
      exact ⟨hself, hjson.symm.trans (Option.some.inj hmapped)⟩
  · exact Option.map_eq_none_iff.mp hmapped'

end Structlog
