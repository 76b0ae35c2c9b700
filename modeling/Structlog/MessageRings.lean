import Mathlib.Data.List.GetD
import Structlog.CircularQ
import Structlog.MessageBuffers

/-!
# Rings of buffered messages

The async queue, the backtrace ring and the ring buffer sink keep their messages in the
elements of the vector of a `circular_q`, which are made once and assigned to again and
again.  A ring is the queue of the addresses of its elements (`CircularQ Addr`): the indices
go around, the vector stays as it is.

`Holding` says which messages the ring holds.  A push is a push onto the bounded FIFO of
them, and what is dequeued or copied out is what the FIFO gives (`Holding.push`,
`Holding.dequeue`, `Holding.lastRaw`).  In particular no element is read after it has been
moved from, which the operations of the store refuse (`message_ring_not_refused`).
-/

namespace Structlog

open Lib

/-! ## The elements of a ring -/

namespace CircularQ

/-- `v_[tail_]`. -/
def target (q : CircularQ Addr) : Addr := q.v.getD q.tail default

namespace WellFormed

variable {q : CircularQ Addr}

theorem itemAt_mem (h : q.WellFormed) (i : ℕ) : q.itemAt i ∈ q.v := by
  have hlt : (q.head + i) % q.maxItems < q.v.length := by
    rw [h.length_v]
    exact Nat.mod_lt _ h.maxItems_pos
  rw [itemAt, List.getD_eq_getElem _ _ hlt]
  exact List.getElem_mem hlt

theorem front_mem (h : q.WellFormed) : q.front ∈ q.v := by
  have hfirst := h.itemAt_mem 0
  rw [itemAt, Nat.add_zero, Nat.mod_eq_of_lt h.head_lt] at hfirst
  exact hfirst

theorem itemAt_inj (h : q.WellFormed) (hnodup : q.v.Nodup) {i j : ℕ} (hi : i < q.maxItems)
    (hj : j < q.maxItems) (heq : q.itemAt i = q.itemAt j) : i = j := by
  have hlt (k : ℕ) : (q.head + k) % q.maxItems < q.v.length := by
    rw [h.length_v]
    exact Nat.mod_lt _ h.maxItems_pos
  rw [itemAt, itemAt, List.getD_eq_getElem _ _ (hlt i), List.getD_eq_getElem _ _ (hlt j)] at heq
  exact wrap_inj hi hj (hnodup.getElem_inj_iff.mp heq)

theorem target_eq (h : q.WellFormed) : q.target = q.itemAt q.size := by
  rw [target, itemAt, h.wrap_size]

theorem mem_of_mem_toList (h : q.WellFormed) {a : Addr} (ha : a ∈ q.toList) : a ∈ q.v := by
  obtain ⟨i, -, rfl⟩ := List.mem_map.mp ha
  exact h.itemAt_mem i

theorem nodup_toList (h : q.WellFormed) (hnodup : q.v.Nodup) : q.toList.Nodup := by
  apply List.Nodup.map_on _ List.nodup_range
  intro i hi j hj heq
  have hlt {k : ℕ} (hk : k ∈ List.range q.size) : k < q.maxItems :=
    (List.mem_range.mp hk).trans h.size_lt
  exact h.itemAt_inj hnodup (hlt hi) (hlt hj) heq

/-- The element at the tail is not in use. -/
theorem target_not_mem (h : q.WellFormed) (hnodup : q.v.Nodup) : q.target ∉ q.toList := by
  intro hmem
  obtain ⟨i, hi, heq⟩ := List.mem_map.mp hmem
  have hlt := List.mem_range.mp hi
  rw [h.target_eq] at heq
  exact hlt.ne (h.itemAt_inj hnodup (hlt.trans h.size_lt) h.size_lt heq)

theorem v_pushBack_target (h : q.WellFormed) : (q.pushBack q.target).v = q.v := by
  have hlt : q.tail < q.v.length := h.length_v ▸ h.tail_lt
  have hsame : q.v.set q.tail q.target = q.v := by
    rw [target, List.getD_eq_getElem _ _ hlt, List.set_getElem_self]
  unfold CircularQ.pushBack
  rw [if_pos h.maxItems_pos]
  dsimp only
  split_ifs <;> exact hsame

end WellFormed

end CircularQ

/-! ## What is done with a ring -/

/-- The operations of a ring, and whatever the program does elsewhere.  A message is made
at `temp` from a `log_msg`, or from nothing, and is gone after the push. -/
inductive RingOp
  | other (op : BufferOp)
  /-- `push_back` of a new message. -/
  | push (temp : Addr) (origMsg : Option (LogMsg StringView Addr)) (left : Bytes)
  /-- `dequeue_for`, when there is an item. -/
  | dequeue (poppedItem : Addr) (left : Bytes)
  /-- `pop_front`, in `foreach_pop`. -/
  | popFront
  /-- `last_raw`, with the addresses of the elements of `ret`. -/
  | lastRaw (lim : ℕ) (ret : List Addr)

namespace RingOp

/-- The message that is pushed. -/
def make (temp : Addr) : Option (LogMsg StringView Addr) → BufferOp
  | none => .defaultConstruct temp
  | some origMsg => .construct temp origMsg

/-- The number of items that `last_raw` copies. -/
def nItems (lim itemsAvailable : ℕ) : ℕ :=
  if 0 < lim then min lim itemsAvailable else itemsAvailable

/-- What is done with the objects. -/
def program (q : CircularQ Addr) : RingOp → List BufferOp
  | other op => [op]
  | push temp origMsg left =>
      [make temp origMsg] ++ (if 0 < q.maxItems then [.moveAssign q.target temp left] else []) ++
        [.destroy temp]
  | dequeue poppedItem left => [.moveAssign poppedItem q.front left]
  | popFront => []
  | lastRaw lim ret =>
      List.zipWith .copyConstruct ret (BoundedFifo.latest (nItems lim q.size) q.toList)

/-- What is done with the indices. -/
def advance (q : CircularQ Addr) : RingOp → CircularQ Addr
  | other _ | lastRaw _ _ => q
  | push _ _ _ => q.pushBack q.target
  | dequeue _ _ | popFront => q.popFront

/-- The messages that the ring holds afterwards. -/
def itemsAfter (mem : Memory) (maxItems : ℕ) (items : List (Option Record)) :
    RingOp → List (Option Record)
  | other _ | lastRaw _ _ => items
  | push _ origMsg _ => BoundedFifo.push (maxItems - 1) items (origMsg.map (·.read mem))
  | dequeue _ _ | popFront => items.tail

end RingOp

/-- A memory with a ring in it, whose operations are steps of that memory. -/
def ringStep {σ : Type*} (step : σ → BufferOp → Option σ) (s : σ × CircularQ Addr) (op : RingOp) :
    Option (σ × CircularQ Addr) :=
  (Runs.partialRun step s.1 (op.program s.2)).map fun s' => (s', op.advance s.2)

/-! ## What a ring holds -/

namespace MessageStore

/-- The elements of the ring exist, and those in use hold these messages, oldest first. -/
structure Holding (s : MessageStore) (q : CircularQ Addr) (items : List (Option Record)) :
    Prop where
  wellFormed : q.WellFormed
  nodup : q.v.Nodup
  made : ∀ a ∈ q.v, s.slots a ≠ .free
  items : q.toList.map s.slots = items.map .holds

variable {s s' : MessageStore} {q : CircularQ Addr} {items : List (Option Record)}

/-- Only the elements of the ring matter. -/
theorem Holding.congr (h : s.Holding q items) (hsame : ∀ a ∈ q.v, s'.slots a = s.slots a) :
    s'.Holding q items := by
  have hitems : q.toList.map s'.slots = q.toList.map s.slots :=
    List.map_congr_left fun a ha => hsame a (h.wellFormed.mem_of_mem_toList ha)
  refine ⟨h.wellFormed, h.nodup, ?_, hitems.trans h.items⟩
  intro a ha
  rw [hsame a ha]
  exact h.made a ha

theorem slots_set_of_ne {a other : Addr} (h : other ≠ a) (slot : Slot) :
    (s.set a slot).slots other = s.slots other := Function.update_of_ne h ..

theorem slots_set_self (a : Addr) (slot : Slot) : (s.set a slot).slots a = slot :=
  Function.update_self ..

theorem set_set (a : Addr) (slot slot' : Slot) : (s.set a slot).set a slot' = s.set a slot' := by
  rw [set, set, set, Function.update_idem]

theorem set_comm {a other : Addr} (h : other ≠ a) (slot slot' : Slot) :
    (s.set a slot).set other slot' = (s.set other slot').set a slot := by
  rw [set, set, set, set, Function.update_comm h]

theorem set_eq_self {a : Addr} {slot : Slot} (h : s.slots a = slot) : s.set a slot = s := by
  rw [set, ← h, Function.update_eq_self]

theorem construct_eq {a : Addr} (h : s.slots a = .free) (origin : Option Record) :
    s.construct a origin = some (s.set a (.holds origin)) := by
  rw [construct, h]

theorem assign_eq {a : Addr} (h : s.slots a ≠ .free) (origin : Option Record) :
    s.assign a origin = some (s.set a (.holds origin)) := by
  unfold assign
  split
  · next hfree => exact absurd hfree h
  · rfl

theorem source_eq {a : Addr} {origin : Option Record} (h : s.slots a = .holds origin) :
    s.source a = some origin := by
  rw [source, h]

theorem step_moveAssign {self other : Addr} (hne : self ≠ other) (hself : s.slots self ≠ .free)
    {origin : Option Record} (hother : s.slots other = .holds origin) (left : Bytes) :
    s.step (.moveAssign self other left) =
      some ((s.set self (.holds origin)).set other (.movedFrom left)) := by
  rw [step, if_neg hne, source_eq hother, Option.bind_some, assign_eq hself, Option.map_some]

theorem step_destroy {a : Addr} (h : s.slots a ≠ .free) :
    s.step (.destroy a) = some (s.set a .free) := by
  rw [step]
  split
  · next hfree => exact absurd hfree h
  · rfl

/-! ## Pushing -/

/-- A new message at `temp`. -/
theorem step_make {temp : Addr} (htemp : s.slots temp = .free)
    {origMsg : Option (LogMsg StringView Addr)} (hlive : ∀ m ∈ origMsg, m.Live s.memory) :
    s.step (RingOp.make temp origMsg) =
      some (s.set temp (.holds (origMsg.map (·.read s.memory)))) := by
  cases origMsg with
  | none => exact construct_eq htemp none
  | some m =>
      rw [RingOp.make, step, if_pos (hlive m rfl)]
      exact construct_eq htemp _

/-- What is left of a push is the message in the element at the tail. -/
theorem partialRun_push (hpos : 0 < q.maxItems) {temp : Addr} (htemp : s.slots temp = .free)
    (htarget : s.slots q.target ≠ .free) {origMsg : Option (LogMsg StringView Addr)}
    (hlive : ∀ m ∈ origMsg, m.Live s.memory) (left : Bytes) :
    Runs.partialRun step s ((RingOp.push temp origMsg left).program q) =
      some (s.set q.target (.holds (origMsg.map (·.read s.memory)))) := by
  have hne : q.target ≠ temp := by
    intro heq
    exact htarget (heq ▸ htemp)
  have hmade := step_make htemp hlive
  generalize origMsg.map (·.read s.memory) = origin at hmade ⊢
  have hother : (s.set temp (.holds origin)).slots q.target ≠ .free := by
    rw [slots_set_of_ne hne]
    exact htarget
  have hmoved := step_moveAssign hne hother (slots_set_self temp (.holds origin)) left
  have hthere : (((s.set temp (.holds origin)).set q.target (.holds origin)).set temp
      (.movedFrom left)).slots temp ≠ .free := by
    rw [slots_set_self]
    exact Slot.noConfusion
  have hgone : (s.set q.target (.holds origin)).slots temp = .free := by
    rw [slots_set_of_ne hne.symm]
    exact htemp
  have hprogram : (RingOp.push temp origMsg left).program q =
      [RingOp.make temp origMsg, .moveAssign q.target temp left, .destroy temp] := by
    rw [RingOp.program, if_pos hpos]
    rfl
  calc Runs.partialRun step s ((RingOp.push temp origMsg left).program q)
      = some ((((s.set temp (.holds origin)).set q.target (.holds origin)).set temp
          (.movedFrom left)).set temp .free) := by
        rw [hprogram, Runs.partialRun, hmade, Option.bind_some, Runs.partialRun, hmoved,
          Option.bind_some, Runs.partialRun, step_destroy hthere, Option.bind_some, Runs.partialRun]
    _ = some (s.set q.target (.holds origin)) := by
        rw [set_set, set_comm hne, set_set, set_eq_self hgone]

/-- A push onto the ring is one onto the bounded FIFO of its messages. -/
theorem Holding.push (h : s.Holding q items) (origin : Option Record) :
    (s.set q.target (.holds origin)).Holding (q.pushBack q.target)
      (BoundedFifo.push (q.maxItems - 1) items origin) := by
  have hv := h.wellFormed.v_pushBack_target
  have hunused := h.wellFormed.target_not_mem h.nodup
  have hkept : q.toList.map (s.set q.target (.holds origin)).slots = items.map .holds := by
    rw [← h.items]
    apply List.map_congr_left
    intro a ha
    apply slots_set_of_ne
    rintro rfl
    exact hunused ha
  constructor
  case wellFormed => exact h.wellFormed.pushBack q.target
  case nodup => exact hv ▸ h.nodup
  case made =>
    intro a ha
    rw [hv] at ha
    by_cases heq : a = q.target
    · rw [heq, slots_set_self]
      exact Slot.noConfusion
    · rw [slots_set_of_ne heq]
      exact h.made a ha
  case items =>
    rw [(h.wellFormed.toList_pushBack q.target).1, ← BoundedFifo.push_map, ← BoundedFifo.push_map,
      hkept, slots_set_self]

/-! ## Taking items out -/

theorem Holding.popFront {origin : Option Record} (h : s.Holding q (origin :: items)) :
    s.slots q.front = .holds origin ∧ q.front ∉ q.popFront.toList ∧
      s.Holding q.popFront items := by
  have hne : q.empty = false := by
    rw [← Bool.not_eq_true, h.wellFormed.empty_iff]
    intro hnil
    have hitems := h.items
    rw [hnil] at hitems
    cases hitems
  have hlist := h.wellFormed.toList_eq_cons hne
  have hitems := h.items
  rw [hlist, List.map_cons, List.map_cons] at hitems
  obtain ⟨hfront, hrest⟩ := List.cons.inj hitems
  have hnodup := h.wellFormed.nodup_toList h.nodup
  rw [hlist] at hnodup
  refine ⟨hfront, (List.nodup_cons.mp hnodup).1, ?_⟩
  exact ⟨h.wellFormed.popFront, h.nodup, h.made, hrest⟩

/-- The oldest item is moved out of its element, which is not in use from then on. -/
theorem Holding.dequeue {origin : Option Record} (h : s.Holding q (origin :: items))
    {poppedItem : Addr} (hitem : s.slots poppedItem ≠ .free) (helsewhere : poppedItem ∉ q.v)
    (left : Bytes) :
    ∃ s', Runs.partialRun step s ((RingOp.dequeue poppedItem left).program q) = some s' ∧
      s'.slots poppedItem = .holds origin ∧ s'.Holding q.popFront items := by
  obtain ⟨hfront, hunused, hpopped⟩ := h.popFront
  have hmem := h.wellFormed.front_mem
  have hne : poppedItem ≠ q.front := by
    rintro rfl
    exact helsewhere hmem
  refine ⟨(s.set poppedItem (.holds origin)).set q.front (.movedFrom left), ?_, ?_, ?_⟩
  · rw [RingOp.program, Runs.partialRun, step_moveAssign hne hitem hfront, Option.bind_some,
      Runs.partialRun]
  · rw [slots_set_of_ne hne, slots_set_self]
  · have hitem' : (s.set poppedItem (.holds origin)).Holding q.popFront items := by
      apply hpopped.congr
      intro a ha
      apply slots_set_of_ne
      rintro rfl
      exact helsewhere ha
    constructor
    case wellFormed => exact hitem'.wellFormed
    case nodup => exact hitem'.nodup
    case made =>
      intro a ha
      by_cases heq : a = q.front
      · rw [heq, slots_set_self]
        exact Slot.noConfusion
      · rw [slots_set_of_ne heq]
        exact hitem'.made a ha
    case items =>
      rw [← hitem'.items]
      apply List.map_congr_left
      intro a ha
      apply slots_set_of_ne
      rintro rfl
      exact hunused ha

/-- Copies of messages that are held elsewhere. -/
theorem partialRun_copyConstruct {ret sources : List Addr} {origins : List (Option Record)}
    (hlength : ret.length = sources.length) (hfree : ∀ a ∈ ret, s.slots a = .free)
    (hnodup : ret.Nodup) (hsources : sources.map s.slots = origins.map .holds) :
    ∃ s', Runs.partialRun step s (List.zipWith .copyConstruct ret sources) = some s' ∧
      ret.map s'.slots = origins.map .holds ∧ ∀ a ∉ ret, s'.slots a = s.slots a := by
  induction ret generalizing s sources origins with
  | nil =>
      obtain rfl := List.eq_nil_of_length_eq_zero hlength.symm
      refine ⟨s, rfl, ?_, fun a _ => rfl⟩
      exact hsources
  | cons first rest ih =>
      obtain ⟨source, sources, rfl⟩ := List.exists_cons_of_length_eq_add_one hlength.symm
      obtain ⟨origin, origins, rfl⟩ : ∃ origin origins', origins = origin :: origins' := by
        cases origins with
        | nil => cases hsources
        | cons origin origins => exact ⟨origin, origins, rfl⟩
      obtain ⟨hsource, hsources⟩ := List.cons.inj hsources
      obtain ⟨hnew, hnodup⟩ := List.nodup_cons.mp hnodup
      have hfirst := hfree first List.mem_cons_self
      have hstep : s.step (.copyConstruct first source) = some (s.set first (.holds origin)) := by
        rw [step, source_eq hsource, Option.bind_some, construct_eq hfirst]
      have hothers : sources.map (s.set first (.holds origin)).slots = origins.map .holds := by
        rw [← hsources]
        apply List.map_congr_left
        intro a ha
        apply slots_set_of_ne
        rintro rfl
        -- A free object holds nothing.
        have hheld : s.slots a ∈ origins.map .holds := hsources ▸ List.mem_map_of_mem ha
        obtain ⟨other, -, hother⟩ := List.mem_map.mp hheld
        cases hother.trans hfirst
      have hfree' : ∀ a ∈ rest, (s.set first (.holds origin)).slots a = .free := by
        intro a ha
        rw [slots_set_of_ne (ne_of_mem_of_not_mem ha hnew)]
        exact hfree a (List.mem_cons_of_mem _ ha)
      obtain ⟨s', hrun, hcopies, hkept⟩ :=
        ih (Nat.succ.inj hlength) hfree' hnodup hothers
      refine ⟨s', ?_, ?_, ?_⟩
      · rw [List.zipWith_cons_cons, Runs.partialRun, hstep, Option.bind_some, hrun]
      · rw [List.map_cons, List.map_cons, hcopies, hkept first hnew, slots_set_self]
      · intro a ha
        obtain ⟨hne, hrest⟩ := not_or.mp (mt List.mem_cons.mpr ha)
        rw [hkept a hrest, slots_set_of_ne hne]

/-- The latest items are copied, and stay in the ring. -/
theorem Holding.lastRaw (h : s.Holding q items) (lim : ℕ) {ret : List Addr}
    (hlength : ret.length = RingOp.nItems lim q.size) (hfree : ∀ a ∈ ret, s.slots a = .free)
    (hnodup : ret.Nodup) :
    ∃ s', Runs.partialRun step s ((RingOp.lastRaw lim ret).program q) = some s' ∧
      ret.map s'.slots = (BoundedFifo.latest (RingOp.nItems lim q.size) items).map .holds ∧
      s'.Holding q items := by
  have hsize : items.length = q.size := by
    rw [← CircularQ.length_toList, ← List.length_map (f := s.slots), h.items, List.length_map]
  have hle : RingOp.nItems lim q.size ≤ q.size := by
    unfold RingOp.nItems
    split_ifs <;> omega
  have hcount : ret.length =
      (BoundedFifo.latest (RingOp.nItems lim q.size) q.toList).length := by
    rw [hlength, BoundedFifo.latest, List.length_drop, CircularQ.length_toList]
    omega
  have hsources : (BoundedFifo.latest (RingOp.nItems lim q.size) q.toList).map s.slots =
      (BoundedFifo.latest (RingOp.nItems lim q.size) items).map .holds := by
    rw [BoundedFifo.latest, BoundedFifo.latest, List.map_drop, List.map_drop, h.items,
      CircularQ.length_toList, hsize]
  obtain ⟨s', hrun, hcopies, hkept⟩ := partialRun_copyConstruct hcount hfree hnodup hsources
  refine ⟨s', hrun, hcopies, h.congr ?_⟩
  intro a ha
  apply hkept
  intro hmem
  exact h.made a ha (hfree a hmem)

/-! ## The ring and the rest of the program -/

end MessageStore

/-- The objects that an operation makes, changes or destroys. -/
def BufferOp.touched : BufferOp → List Addr
  | .callers _ => []
  | .defaultConstruct self | .construct self _ | .copyConstruct self _ | .copyAssign self _
  | .destroy self => [self]
  | .moveConstruct self other _ | .moveAssign self other _ => [self, other]

namespace MessageStore

variable {s s' : MessageStore} {q : CircularQ Addr} {items : List (Option Record)}

theorem construct_some {a other : Addr} {origin : Option Record}
    (hs : s.construct a origin = some s') (hne : other ≠ a) : s'.slots other = s.slots other := by
  unfold construct at hs
  split at hs
  · obtain rfl := Option.some.inj hs
    exact slots_set_of_ne hne _
  · cases hs

theorem assign_some {a other : Addr} {origin : Option Record}
    (hs : s.assign a origin = some s') (hne : other ≠ a) : s'.slots other = s.slots other := by
  unfold assign at hs
  split at hs
  · cases hs
  · obtain rfl := Option.some.inj hs
    exact slots_set_of_ne hne _

/-- The other objects stay as they are. -/
theorem slots_step {op : BufferOp} (hs : s.step op = some s') {a : Addr} (ha : a ∉ op.touched) :
    s'.slots a = s.slots a := by
  cases op with
  | callers external =>
      obtain rfl := Option.some.inj hs
      rfl
  | defaultConstruct self => exact construct_some hs (List.ne_of_not_mem_cons ha)
  | construct self origMsg =>
      rw [step] at hs
      split_ifs at hs
      exact construct_some hs (List.ne_of_not_mem_cons ha)
  | copyConstruct self other =>
      obtain ⟨origin, -, hs⟩ := Option.bind_eq_some_iff.mp hs
      exact construct_some hs (List.ne_of_not_mem_cons ha)
  | moveConstruct self other left =>
      obtain ⟨origin, -, hs⟩ := Option.bind_eq_some_iff.mp hs
      obtain ⟨made, hmade, rfl⟩ := Option.map_eq_some_iff.mp hs
      rw [slots_set_of_ne (List.ne_of_not_mem_cons (List.not_mem_of_not_mem_cons ha))]
      exact construct_some hmade (List.ne_of_not_mem_cons ha)
  | copyAssign self other =>
      rw [step] at hs
      split_ifs at hs
      obtain ⟨origin, -, hs⟩ := Option.bind_eq_some_iff.mp hs
      exact assign_some hs (List.ne_of_not_mem_cons ha)
  | moveAssign self other left =>
      rw [step] at hs
      split_ifs at hs
      obtain ⟨origin, -, hs⟩ := Option.bind_eq_some_iff.mp hs
      obtain ⟨made, hmade, rfl⟩ := Option.map_eq_some_iff.mp hs
      rw [slots_set_of_ne (List.ne_of_not_mem_cons (List.not_mem_of_not_mem_cons ha))]
      exact assign_some hmade (List.ne_of_not_mem_cons ha)
  | destroy self =>
      rw [step] at hs
      split at hs
      · cases hs
      · obtain rfl := Option.some.inj hs
        exact slots_set_of_ne (List.ne_of_not_mem_cons ha) _

end MessageStore

/-- What the users of the ring see to: a new object is made where there is none, nothing is
taken out of an empty ring, and the elements are left alone by the rest of the program.
That nothing is read which has been moved away is not among it. -/
def RingOp.Allowed (s : MessageStore) (q : CircularQ Addr) : RingOp → Prop
  | other op => (s.step op).isSome = true ∧ ∀ a ∈ q.v, a ∉ op.touched
  | push temp origMsg _ => s.slots temp = .free ∧ ∀ m ∈ origMsg, m.Live s.memory
  | dequeue poppedItem _ =>
      q.empty = false ∧ s.slots poppedItem ≠ .free ∧ poppedItem ∉ q.v
  | popFront => q.empty = false
  | lastRaw lim ret =>
      ret.length = nItems lim q.size ∧ ret.Nodup ∧ ∀ a ∈ ret, s.slots a = .free

namespace MessageStore

variable {s s' : MessageStore} {q : CircularQ Addr} {items : List (Option Record)}

theorem Holding.exists_cons (h : s.Holding q items) (hne : q.empty = false) :
    ∃ origin rest, items = origin :: rest := by
  apply List.exists_cons_of_ne_nil
  rintro rfl
  have hnil : q.toList = [] := List.map_eq_nil_iff.mp h.items
  rw [(h.wellFormed.empty_iff).mpr hnil] at hne
  cases hne

/-- An operation that is allowed is not refused, and does with the messages what the bounded
FIFO does. -/
theorem Holding.ringStep (h : s.Holding q items) {op : RingOp} (hop : op.Allowed s q) :
    ∃ s', ringStep step (s, q) op = some (s', op.advance q) ∧
      s'.Holding (op.advance q) (op.itemsAfter s.memory q.maxItems items) := by
  have hdone {s' : MessageStore} (hrun : Runs.partialRun step s (op.program q) = some s') :
      Structlog.ringStep step (s, q) op = some (s', op.advance q) := by
    rw [Structlog.ringStep, hrun, Option.map_some]
  cases op with
  | other op =>
      obtain ⟨hsome, helsewhere⟩ := hop
      obtain ⟨s', hs'⟩ := Option.isSome_iff_exists.mp hsome
      refine ⟨s', hdone ?_, h.congr fun a ha => slots_step hs' (helsewhere a ha)⟩
      rw [RingOp.program, Runs.partialRun, hs', Option.bind_some, Runs.partialRun]
  | push temp origMsg left =>
      obtain ⟨htemp, hlive⟩ := hop
      have htarget : s.slots q.target ≠ .free := by
        apply h.made
        rw [h.wellFormed.target_eq]
        exact h.wellFormed.itemAt_mem _
      exact ⟨_, hdone (partialRun_push h.wellFormed.maxItems_pos htemp htarget hlive left),
        h.push _⟩
  | dequeue poppedItem left =>
      obtain ⟨hne, hitem, helsewhere⟩ := hop
      obtain ⟨origin, rest, rfl⟩ := h.exists_cons hne
      obtain ⟨s', hrun, -, hrest⟩ := h.dequeue hitem helsewhere left
      exact ⟨s', hdone hrun, hrest⟩
  | popFront =>
      obtain ⟨origin, rest, rfl⟩ := h.exists_cons hop
      exact ⟨s, hdone rfl, h.popFront.2.2⟩
  | lastRaw lim ret =>
      obtain ⟨hlength, hnodup, hfree⟩ := hop
      obtain ⟨s', hrun, -, hkept⟩ := h.lastRaw lim hlength hfree hnodup
      exact ⟨s', hdone hrun, hkept⟩

/-- The elements of a new ring are made from nothing, and it holds no message. -/
theorem Holding.create {cells : List Addr} (hne : cells ≠ []) (hnodup : cells.Nodup)
    (hfree : ∀ a ∈ cells, s.slots a = .free) :
    ∃ s', Runs.partialRun step s (cells.map .defaultConstruct) = some s' ∧
      s'.Holding ⟨cells.length, 0, 0, 0, cells⟩ [] := by
  have hmake {cells : List Addr} {s : MessageStore} (hnodup : cells.Nodup)
      (hfree : ∀ a ∈ cells, s.slots a = .free) :
      ∃ s', Runs.partialRun step s (cells.map .defaultConstruct) = some s' ∧
        (∀ a ∈ cells, s'.slots a = .holds none) ∧ ∀ a ∉ cells, s'.slots a = s.slots a := by
    induction cells generalizing s with
    | nil => exact ⟨s, rfl, List.forall_mem_nil _, fun _ _ => rfl⟩
    | cons first rest ih =>
        obtain ⟨hnew, hnodup⟩ := List.nodup_cons.mp hnodup
        have hstep : s.step (.defaultConstruct first) = some (s.set first (.holds none)) :=
          construct_eq (hfree first List.mem_cons_self) none
        obtain ⟨s', hrun, hmade, hkept⟩ := ih (s := s.set first (.holds none)) hnodup (by
          intro a ha
          rw [slots_set_of_ne (ne_of_mem_of_not_mem ha hnew)]
          exact hfree a (List.mem_cons_of_mem _ ha))
        refine ⟨s', ?_, ?_, ?_⟩
        · rw [List.map_cons, Runs.partialRun, hstep, Option.bind_some, hrun]
        · intro a ha
          rcases List.mem_cons.mp ha with rfl | ha
          · rw [hkept a hnew, slots_set_self]
          · exact hmade a ha
        · intro a ha
          obtain ⟨hother, hrest⟩ := not_or.mp (mt List.mem_cons.mpr ha)
          rw [hkept a hrest, slots_set_of_ne hother]
  obtain ⟨s', hrun, hmade, -⟩ := hmake hnodup hfree
  have hpos : 0 < cells.length := List.length_pos_iff.mpr hne
  refine ⟨s', hrun, ⟨hpos, hpos, rfl, show 0 < sizeT by decide⟩, hnodup, ?_, rfl⟩
  intro a ha
  rw [hmade a ha]
  exact Slot.noConfusion

/-- Every operation of a run is allowed where it comes. -/
def AllowedRun : MessageStore → CircularQ Addr → List RingOp → Prop
  | _, _, [] => True
  | s, q, op :: rest =>
      op.Allowed s q ∧
        ∀ s', ringStep step (s, q) op = some (s', op.advance q) → AllowedRun s' (op.advance q) rest

/-- What a bounded FIFO holds after the same operations. -/
def itemsRun : MessageStore → CircularQ Addr → List (Option Record) → List RingOp →
    List (Option Record)
  | _, _, items, [] => items
  | s, q, items, op :: rest =>
      match Structlog.ringStep step (s, q) op with
      | none => items
      | some (s', q') => itemsRun s' q' (op.itemsAfter s.memory q.maxItems items) rest

theorem Holding.run (h : s.Holding q items) {ops : List RingOp} (hops : s.AllowedRun q ops) :
    ∃ s' q', Runs.partialRun (Structlog.ringStep step) (s, q) ops = some (s', q') ∧
      s'.Holding q' (s.itemsRun q items ops) := by
  induction ops generalizing s q items with
  | nil => exact ⟨s, q, rfl, h⟩
  | cons op rest ih =>
      obtain ⟨hop, hrest⟩ := hops
      obtain ⟨s', hstep, hnext⟩ := h.ringStep hop
      obtain ⟨s'', q', hrun, hlast⟩ := ih hnext (hrest s' hstep)
      refine ⟨s'', q', ?_, ?_⟩
      · rw [Runs.partialRun, hstep, Option.bind_some, hrun]
      · rw [itemsRun, hstep]
        exact hlast

end MessageStore

/-! ## In memory -/

/-- The ring in memory does what the ring over the store does. -/
theorem ringStep_simulates (h : Heap × CircularQ Addr) (s : MessageStore × CircularQ Addr)
    (op : RingOp) (s' : MessageStore × CircularQ Addr) (hsim : Simulates h.1 s.1 ∧ h.2 = s.2)
    (hs : ringStep MessageStore.step s op = some s') :
    ∃ h', ringStep Heap.step h op = some h' ∧ Simulates h'.1 s'.1 ∧ h'.2 = s'.2 := by
  obtain ⟨t, hrun, rfl⟩ := Option.map_eq_some_iff.mp hs
  obtain ⟨h', hrun', hsim'⟩ := Runs.partialRun_simulates simulates_step hsim.1 hrun
  refine ⟨(h', op.advance h.2), ?_, hsim', congrArg op.advance hsim.2⟩
  rw [ringStep, hsim.2, hrun', Option.map_some]

theorem eq_of_mem_zip {α β γ : Type*} {f : α → γ} {g : β → γ} {xs : List α} {ys : List β}
    (h : xs.map f = ys.map g) {p : α × β} (hp : p ∈ xs.zip ys) : f p.1 = g p.2 := by
  induction xs generalizing ys with
  | nil => cases hp
  | cons x xs ih =>
      cases ys with
      | nil => cases hp
      | cons y ys =>
          obtain ⟨hfirst, hrest⟩ := List.cons.inj h
          rcases List.mem_cons.mp hp with rfl | hp
          · exact hfirst
          · exact ih hrest hp

/-- A ring that is used as its operations allow is never refused anything, whatever the rest
of the program does: no element is read that has been moved from, nothing that is not there
is read, and no assertion fails.  The elements in use are deep copies of the messages that a
bounded FIFO holds then. -/
theorem message_ring_not_refused {heap : Heap} {s : MessageStore} {q : CircularQ Addr}
    {items : List (Option Record)} (hsim : Simulates heap s) (h : s.Holding q items)
    {ops : List RingOp} (hops : s.AllowedRun q ops) :
    ∃ heap' q', Runs.partialRun (ringStep Heap.step) (heap, q) ops = some (heap', q') ∧
      (s.itemsRun q items ops).length = q'.size ∧
      ∀ p ∈ q'.toList.zip (s.itemsRun q items ops), ∃ b, heap'.cells p.1 = .live b ∧
        ∀ m, p.2 = some m → DeepCopy heap' p.1 b m := by
  obtain ⟨s', q', hrun, hlast⟩ := h.run hops
  obtain ⟨⟨heap', q''⟩, hrun', hsim', hq⟩ := Runs.partialRun_simulates
    (R := fun h s => Simulates h.1 s.1 ∧ h.2 = s.2) ringStep_simulates (s := (heap, q)) ⟨hsim, rfl⟩
    hrun
  obtain rfl : q'' = q' := hq
  refine ⟨heap', q'', hrun', ?_, ?_⟩
  · have hlength := congrArg List.length hlast.items
    rw [List.length_map, List.length_map, CircularQ.length_toList] at hlength
    exact hlength.symm
  · intro p hp
    exact hsim'.held (eq_of_mem_zip hlast.items hp)

/-- Two elements of a ring and the message of a worker, all made from nothing. -/
def ringStore : MessageStore :=
  (((MessageStore.initial callersText).set 20 (.holds none)).set 21 (.holds none)).set 30
    (.holds none)

def messageRing : CircularQ Addr := ⟨2, 0, 0, 0, [20, 21]⟩

/-- Two pushes onto the ring, which has one place. -/
def overrunRing : List RingOp :=
  [.push 10 (some (callersMsg (some 2))) [], .push 10 (some (callersMsg none)) []]

theorem holding_messageRing : ringStore.Holding messageRing [] where
  wellFormed := ⟨by decide, by decide, rfl, by decide⟩
  nodup := by decide
  made := by
    intro a ha
    simp only [messageRing, List.mem_cons, List.not_mem_nil, or_false] at ha
    rcases ha with rfl | rfl <;> exact Slot.noConfusion
  items := rfl

theorem allowed_overrunRing : ringStore.AllowedRun messageRing overrunRing := by
  refine ⟨⟨rfl, by decide⟩, fun s₁ h₁ => ?_⟩
  obtain rfl := (Prod.mk.inj (Option.some.inj h₁)).1
  exact ⟨⟨rfl, by decide⟩, fun s₂ h₂ => trivial⟩

/-- The second message is in an element that is live, as a deep copy. -/
theorem message_ring_not_refused_overrun :
    ∃ heap, Runs.partialRun Heap.step (.initial callersText)
        [.defaultConstruct 20, .defaultConstruct 21, .defaultConstruct 30] = some heap ∧
      ∃ heap' q', Runs.partialRun (ringStep Heap.step) (heap, messageRing) overrunRing =
          some (heap', q') ∧ q'.size = 1 ∧
        ∀ p ∈ q'.toList.zip [some ((callersMsg none).read callersText)],
          ∃ b, heap'.cells p.1 = .live b ∧ ∀ m, p.2 = some m → DeepCopy heap' p.1 b m := by
  have hmade : Runs.partialRun MessageStore.step (.initial callersText)
      [.defaultConstruct 20, .defaultConstruct 21, .defaultConstruct 30] = some ringStore := rfl
  obtain ⟨heap, hrun, hsim⟩ := Runs.partialRun_simulates simulates_step
    (Simulates.initial callersText) hmade
  obtain ⟨heap', q', hrun', hsize, hheld⟩ :=
    message_ring_not_refused hsim holding_messageRing allowed_overrunRing
  exact ⟨heap, hrun, heap', q', hrun', hsize.symm, hheld⟩

end Structlog
