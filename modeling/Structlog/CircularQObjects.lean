import Mathlib.Logic.Function.Basic
import Structlog.CircularQ
import Structlog.Lib.Runs

/-!
# `circular_q` objects

The class with its constructors and assignments, every index and every modulo
checked: a member is `none` here where the code would index outside of the vector
or divide by zero, and sums are `size_t`.  A program has any number of queues, which
are created, pushed to, popped from, copied and moved.

`Represents` relates a queue to the bounded FIFO that it stands for.  The operations
keep it (`Represents.pushBack`, `Represents.popFront`, and the constructors), so that
the program simulates the one over bounded FIFOs and nothing undefined happens in it
(`circular_q_refines`).
-/

namespace Structlog

open Lib Lib.BoundedFifo

/-- `std::vector::max_size`, at most: a difference of two iterators is signed. -/
def vectorMaxSize : ℕ := 2 ^ 63 - 1

/-- `a % b`. -/
def modulo (a b : ℕ) : Option ℕ := if b = 0 then none else some (a % b)

/-- `a + b` in `size_t`. -/
def addSizeT (a b : ℕ) : ℕ := (a + b) % sizeT

namespace CircularQ

variable {α : Type*}

/-! ## The members, checked -/

def pushBackChecked (q : CircularQ α) (item : α) : Option (CircularQ α) :=
  if 0 < q.maxItems then
    if q.tail < q.v.length then
      let v := q.v.set q.tail item
      (modulo (addSizeT q.tail 1) q.maxItems).bind fun tail =>
        if tail = q.head then -- overrun last item if full
          (modulo (addSizeT q.head 1) q.maxItems).map fun head =>
            { q with v, tail, head, overrunCounter := addSizeT q.overrunCounter 1 }
        else some { q with v, tail }
    else none
  else some q

def frontChecked (q : CircularQ α) : Option α := q.v[q.head]?

/-- `at`, which asserts that there is such an item. -/
def itemAtChecked (q : CircularQ α) (i : ℕ) : Option α :=
  if i < q.size then (modulo (addSizeT q.head i) q.maxItems).bind fun cell => q.v[cell]? else none

def popFrontChecked (q : CircularQ α) : Option (CircularQ α) :=
  (modulo (addSizeT q.head 1) q.maxItems).map fun head => { q with head }

def fullChecked (q : CircularQ α) : Option Bool :=
  if 0 < q.maxItems then
    (modulo (addSizeT q.tail 1) q.maxItems).map fun tail => decide (tail = q.head)
  else some false

/-- `copy_moveable`: the queue that is moved to, and `other` after that.  A vector
that was moved from is empty. -/
def copyMoveable (other : CircularQ α) : CircularQ α × CircularQ α :=
  (other,
    { other with
      v := []
      maxItems := 0
      head := 0
      tail := 0
      overrunCounter := 0 })

/-- `circular_q(size_t max_items)`, unless the vector cannot be that long. -/
def construct [Inhabited α] (maxItems : ℕ) : Option (CircularQ α) :=
  if addSizeT maxItems 1 ≤ vectorMaxSize then some (new maxItems) else none

end CircularQ

/-! ## Programs over queues -/

/-- What can be done with the queues; a queue is named by a number. -/
inductive QueueOp (α : Type*)
  /-- `circular_q()`. -/
  | createDisabled (target : ℕ)
  /-- `circular_q(max_items)`; nothing is created if the constructor throws. -/
  | create (target maxItems : ℕ)
  | pushBack (target : ℕ) (item : α)
  | popFront (target : ℕ)
  /-- Copy construction or copy assignment. -/
  | copy (target source : ℕ)
  /-- Move construction or move assignment. -/
  | move (target source : ℕ)
  deriving Repr

variable {α : Type*}

/-- The queues of a program after an operation, `none` if it is undefined. -/
def CircularQ.objectStep [Inhabited α] (qs : ℕ → CircularQ α) :
    QueueOp α → Option (ℕ → CircularQ α)
  | .createDisabled target => some (Function.update qs target .disabled)
  | .create target maxItems =>
      match CircularQ.construct maxItems with
      | some q => some (Function.update qs target q)
      | none => some qs
  | .pushBack target item => ((qs target).pushBackChecked item).map (Function.update qs target)
  | .popFront target => (qs target).popFrontChecked.map (Function.update qs target)
  | .copy target source => some (Function.update qs target (qs source))
  | .move target source =>
      let (moved, left) := (qs source).copyMoveable
      some (Function.update (Function.update qs source left) target moved)

/-- The same for bounded FIFOs, `none` where the operation must not be used: popping
off an empty queue, a size for which `max_items + 1` overflows, and moving a queue to
itself. -/
def Fifo.objectStep (fs : ℕ → Fifo α) : QueueOp α → Option (ℕ → Fifo α)
  | .createDisabled target => some (Function.update fs target .disabled)
  | .create target maxItems =>
      if sizeT ≤ maxItems + 1 then none
      else if maxItems + 1 ≤ vectorMaxSize then
        some (Function.update fs target (.withCapacity maxItems))
      else some fs
  | .pushBack target item => some (Function.update fs target ((fs target).push item))
  | .popFront target =>
      if (fs target).items = [] then none
      else some (Function.update fs target (fs target).pop)
  | .copy target source => some (Function.update fs target (fs source))
  | .move target source =>
      if target = source then none
      else some (Function.update (Function.update fs source .disabled) target (fs source))

namespace CircularQ

variable [Inhabited α]

/-! ## What a queue stands for -/

inductive Represents : CircularQ α → Fifo α → Prop
  | disabled : Represents .disabled .disabled
  | enabled {q : CircularQ α} {f : Fifo α} (wellFormed : q.WellFormed)
      (fits : q.maxItems ≤ vectorMaxSize) (capacity : f.capacity = some (q.maxItems - 1))
      (items : q.toList = f.items) (counter : q.overrunCounter = f.dropped.length % sizeT) :
      Represents q f

/-- What can be seen of a queue is what the list says, and nothing undefined happens
when one looks. -/
structure Agrees (q : CircularQ α) (f : Fifo α) : Prop where
  size : q.size = f.items.length
  empty : q.empty = true ↔ f.items = []
  full : q.fullChecked = some (decide f.Full)
  front : f.items ≠ [] → q.frontChecked = f.items.head?
  itemAt : ∀ i < f.items.length, q.itemAtChecked i = f.items[i]?
  overrunCounter : q.overrunCounter = f.dropped.length % sizeT
  bounded : ∀ n ∈ f.capacity, f.items.length ≤ n
  length_v : q.v.length = q.maxItems
  inRange : f.capacity.isSome → q.head < q.maxItems ∧ q.tail < q.maxItems
  disabled : f.capacity = none → q = .disabled ∧ f.items = [] ∧
    ∀ item, q.pushBackChecked item = some q

namespace WellFormed

variable {q : CircularQ α}

section

omit [Inhabited α]

/-- Two indices of the vector do not overflow. -/
theorem addSizeT_head (h : q.WellFormed) (hfits : q.maxItems ≤ vectorMaxSize) {i : ℕ}
    (hi : i < q.maxItems) : modulo (addSizeT q.head i) q.maxItems =
      some ((q.head + i) % q.maxItems) := by
  have hhead := h.head_lt
  have hpos : q.maxItems ≠ 0 := by omega
  have hlt : q.head + i < sizeT := by
    unfold vectorMaxSize at hfits
    unfold sizeT
    omega
  rw [modulo, if_neg hpos, addSizeT, Nat.mod_eq_of_lt hlt]

theorem addSizeT_end (h : q.WellFormed) (hfits : q.maxItems ≤ vectorMaxSize) {cell : ℕ}
    (hcell : cell < q.maxItems) : modulo (addSizeT cell 1) q.maxItems =
      some ((cell + 1) % q.maxItems) := by
  have hpos := h.maxItems_pos
  have hlt : cell + 1 < sizeT := by
    unfold vectorMaxSize at hfits
    unfold sizeT
    omega
  rw [modulo, if_neg hpos.ne', addSizeT, Nat.mod_eq_of_lt hlt]

theorem pushBackChecked (h : q.WellFormed) (hfits : q.maxItems ≤ vectorMaxSize) (item : α) :
    q.pushBackChecked item = some (q.pushBack item) := by
  have htail : q.tail < q.v.length := h.length_v ▸ h.tail_lt
  rw [CircularQ.pushBackChecked, CircularQ.pushBack, if_pos h.maxItems_pos,
    if_pos h.maxItems_pos, if_pos htail, h.addSizeT_end hfits h.tail_lt,
    h.addSizeT_end hfits h.head_lt]
  dsimp only [Option.bind_some, Option.map_some]
  split_ifs <;> rfl

theorem popFrontChecked (h : q.WellFormed) (hfits : q.maxItems ≤ vectorMaxSize) :
    q.popFrontChecked = some q.popFront := by
  rw [CircularQ.popFrontChecked, h.addSizeT_end hfits h.head_lt]
  rfl

theorem fullChecked (h : q.WellFormed) (hfits : q.maxItems ≤ vectorMaxSize) :
    q.fullChecked = some q.full := by
  rw [CircularQ.fullChecked, CircularQ.full, if_pos h.maxItems_pos, if_pos h.maxItems_pos,
    h.addSizeT_end hfits h.tail_lt]
  rfl

end

/-- A cell of the vector is there. -/
theorem getElem?_v (h : q.WellFormed) {cell : ℕ} (hcell : cell < q.maxItems) :
    q.v[cell]? = some (q.v.getD cell default) := by
  have hlt : cell < q.v.length := h.length_v ▸ hcell
  rw [List.getD_eq_getElem?_getD, List.getElem?_eq_getElem hlt]
  rfl

theorem itemAtChecked (h : q.WellFormed) (hfits : q.maxItems ≤ vectorMaxSize) {i : ℕ}
    (hi : i < q.size) : q.itemAtChecked i = q.toList[i]? := by
  have hcell : (q.head + i) % q.maxItems < q.maxItems := Nat.mod_lt _ h.maxItems_pos
  rw [CircularQ.itemAtChecked, if_pos hi, h.addSizeT_head hfits (hi.trans h.size_lt),
    Option.bind_some, h.getElem?_v hcell, toList, List.getElem?_map,
    List.getElem?_range hi]
  rfl

end WellFormed

namespace Represents

variable {q : CircularQ α} {f : Fifo α}

theorem agrees (h : Represents q f) : q.Agrees f := by
  cases h with
  | disabled =>
      constructor
      case size => rfl
      case empty => exact iff_of_true rfl rfl
      case full => rfl
      case front =>
        intro hne
        exact absurd rfl hne
      case itemAt =>
        intro i hi
        exact absurd hi (Nat.not_lt_zero i)
      case overrunCounter => rfl
      case bounded =>
        intro n hn
        cases hn
      case length_v => rfl
      case inRange =>
        intro hsome
        cases hsome
      case disabled =>
        intro _
        exact ⟨rfl, rfl, fun _ => rfl⟩
  | enabled wellFormed fits capacity items counter =>
      -- Every answer is read off the list of items.
      have hsize : q.size = f.items.length := by rw [← items, length_toList]
      have hpos := wellFormed.maxItems_pos
      constructor
      case size => exact hsize
      case empty => rw [wellFormed.empty_iff, items]
      case full =>
        rw [wellFormed.fullChecked fits, Option.some_inj, Bool.eq_iff_iff, decide_eq_true_iff,
          wellFormed.full_iff, items, Fifo.Full, capacity, Option.some_inj]
        exact eq_comm
      case front =>
        intro hne
        have hempty : q.empty = false := by
          rw [← Bool.not_eq_true, wellFormed.empty_iff, items]
          exact hne
        rw [frontChecked, wellFormed.getElem?_v wellFormed.head_lt, ← items,
          wellFormed.toList_eq_cons hempty]
        rfl
      case itemAt =>
        intro i hi
        rw [wellFormed.itemAtChecked fits (hsize ▸ hi), items]
      case overrunCounter => exact counter
      case bounded =>
        intro n hn
        obtain rfl := Option.some.inj (capacity.symm.trans hn)
        exact items ▸ wellFormed.length_le
      case length_v => exact wellFormed.length_v
      case inRange =>
        intro _
        exact ⟨wellFormed.head_lt, wellFormed.tail_lt⟩
      case disabled =>
        intro hnone
        rw [capacity] at hnone
        cases hnone

/-- A constructor that does not throw makes an empty queue. -/
theorem create {maxItems : ℕ} (hfits : maxItems + 1 ≤ vectorMaxSize) :
    Represents (new maxItems : CircularQ α) (.withCapacity maxItems) := by
  have hlt : maxItems + 1 < sizeT := by
    unfold vectorMaxSize at hfits
    unfold sizeT
    omega
  have hmax : (new maxItems : CircularQ α).maxItems = maxItems + 1 := Nat.mod_eq_of_lt hlt
  refine .enabled (wellFormed_new hlt) (hmax.trans_le hfits) ?_ (toList_new _) rfl
  rw [hmax, Nat.add_sub_cancel]
  rfl

theorem pushBack (h : Represents q f) (item : α) :
    ∃ q', q.pushBackChecked item = some q' ∧ Represents q' (f.push item) := by
  cases h with
  | disabled => exact ⟨_, rfl, .disabled⟩
  | enabled wellFormed fits capacity items counter =>
      refine ⟨_, wellFormed.pushBackChecked fits item, ?_⟩
      obtain ⟨hlist, hcounter⟩ := wellFormed.toList_pushBack item
      have hmax := maxItems_pushBack q item
      have hpush : f.push item = { f with
          items := BoundedFifo.push (q.maxItems - 1) f.items item
          dropped := f.dropped ++ BoundedFifo.dropped (q.maxItems - 1) f.items item } := by
        rw [Fifo.push, capacity]
      rw [hpush]
      refine .enabled (wellFormed.pushBack item) (hmax.trans_le fits) ?_ ?_ ?_
      · exact capacity.trans (by rw [hmax])
      · rw [hlist, items]
      · rw [hcounter, counter, items, Nat.mod_add_mod, List.length_append]

theorem popFront (h : Represents q f) (hne : f.items ≠ []) :
    ∃ q', q.popFrontChecked = some q' ∧ Represents q' f.pop := by
  cases h with
  | disabled => exact absurd rfl hne
  | enabled wellFormed fits capacity items counter =>
      have hempty : q.empty = false := by
        rw [← Bool.not_eq_true, wellFormed.empty_iff, items]
        exact hne
      refine ⟨_, wellFormed.popFrontChecked fits, ?_⟩
      refine .enabled wellFormed.popFront fits capacity ?_ counter
      rw [Fifo.pop, ← items, wellFormed.toList_eq_cons hempty]
      rfl

end Represents

/-- An operation on the queues does to each what it does to the FIFO that it stands
for. -/
theorem objectStep_simulates (qs : ℕ → CircularQ α) (fs : ℕ → Fifo α) (op : QueueOp α)
    (fs' : ℕ → Fifo α) (h : ∀ i, Represents (qs i) (fs i))
    (hop : Fifo.objectStep fs op = some fs') :
    ∃ qs', objectStep qs op = some qs' ∧ ∀ i, Represents (qs' i) (fs' i) := by
  -- What is done to one queue leaves the others as they are.
  have hupdate {qs : ℕ → CircularQ α} {fs : ℕ → Fifo α} (h : ∀ i, Represents (qs i) (fs i))
      (target : ℕ) {q : CircularQ α} {f : Fifo α} (hq : Represents q f) (i : ℕ) :
      Represents (Function.update qs target q i) (Function.update fs target f i) := by
    by_cases heq : i = target
    · rw [heq, Function.update_self, Function.update_self]
      exact hq
    · rw [Function.update_of_ne heq, Function.update_of_ne heq]
      exact h i
  cases op with
  | createDisabled target =>
      obtain rfl := Option.some.inj hop
      exact ⟨_, rfl, hupdate h target .disabled⟩
  | create target maxItems =>
      rw [Fifo.objectStep] at hop
      split_ifs at hop with hoverflow hfits
      · obtain rfl := Option.some.inj hop
        have hsum : addSizeT maxItems 1 = maxItems + 1 := Nat.mod_eq_of_lt (by omega)
        refine ⟨_, ?_, hupdate h target (.create hfits)⟩
        rw [objectStep, construct, hsum, if_pos hfits]
      · obtain rfl := Option.some.inj hop
        have hsum : addSizeT maxItems 1 = maxItems + 1 := Nat.mod_eq_of_lt (by omega)
        refine ⟨_, ?_, h⟩
        rw [objectStep, construct, hsum, if_neg hfits]
  | pushBack target item =>
      obtain rfl := Option.some.inj hop
      obtain ⟨q', hpush, hq'⟩ := (h target).pushBack item
      refine ⟨_, ?_, hupdate h target hq'⟩
      rw [objectStep, hpush]
      rfl
  | popFront target =>
      rw [Fifo.objectStep] at hop
      split_ifs at hop with hempty
      obtain rfl := Option.some.inj hop
      obtain ⟨q', hpop, hq'⟩ := (h target).popFront hempty
      refine ⟨_, ?_, hupdate h target hq'⟩
      rw [objectStep, hpop]
      rfl
  | copy target source =>
      obtain rfl := Option.some.inj hop
      exact ⟨_, rfl, hupdate h target (h source)⟩
  | move target source =>
      rw [Fifo.objectStep] at hop
      split_ifs at hop
      obtain rfl := Option.some.inj hop
      exact ⟨_, rfl, hupdate (hupdate h source .disabled) target (h source)⟩

/-- Whatever is done with any number of queues, each of them is the bounded FIFO that
it stands for, no index is outside of its vector, and nothing is taken modulo zero. -/
theorem circular_q_refines (ops : List (QueueOp α)) (fs : ℕ → Fifo α)
    (hops : Runs.partialRun Fifo.objectStep (fun _ => .disabled) ops = some fs) :
    ∃ qs, Runs.partialRun objectStep (fun _ => CircularQ.disabled) ops = some qs ∧
      ∀ i, (qs i).Agrees (fs i) := by
  obtain ⟨qs, hrun, hqs⟩ := Runs.partialRun_simulates objectStep_simulates
    (fun _ => Represents.disabled) hops
  exact ⟨qs, hrun, fun i => (hqs i).agrees⟩

/-- A queue with two places after three items, one of them popped; then it is moved,
and the new one gets another item and is copied. -/
def movedQueue : List (QueueOp ℕ) :=
  [.create 0 2, .pushBack 0 7, .pushBack 0 8, .pushBack 0 9, .popFront 0, .move 1 0,
    .pushBack 1 4, .copy 2 1]

theorem circular_q_refines_moved :
    ∃ fs, Runs.partialRun Fifo.objectStep (fun _ => .disabled) movedQueue = some fs ∧
      (fs 0).items = [] ∧ (fs 1).items = [9, 4] ∧ (fs 2).dropped = [7] ∧
      ∃ qs, Runs.partialRun objectStep (fun _ => CircularQ.disabled) movedQueue = some qs ∧
        ∀ i, (qs i).Agrees (fs i) := by
  have hruns : (Runs.partialRun Fifo.objectStep (fun _ => .disabled) movedQueue).map
      (fun fs => ((fs 0).items, (fs 1).items, (fs 2).dropped)) = some ([], [9, 4], [7]) := by
    decide +kernel
  obtain ⟨fs, hrun, hfs⟩ := Option.map_eq_some_iff.mp hruns
  rw [Prod.mk.injEq, Prod.mk.injEq] at hfs
  obtain ⟨hleft, hmoved, hcopied⟩ := hfs
  exact ⟨fs, hrun, hleft, hmoved, hcopied, circular_q_refines movedQueue fs hrun⟩

/-- Pushing `k` items onto a queue without places drops them all. -/
theorem fifo_push_replicate (x : ℕ) (k : ℕ) (fs : ℕ → Fifo ℕ) (dropped : List ℕ)
    (h : fs 0 = ⟨some 0, [], dropped⟩) :
    ∃ fs', Runs.partialRun Fifo.objectStep fs (List.replicate k (.pushBack 0 x)) = some fs' ∧
      fs' 0 = ⟨some 0, [], dropped ++ List.replicate k x⟩ := by
  induction k generalizing fs dropped with
  | zero => exact ⟨fs, rfl, by rw [h]; simp⟩
  | succ k ih =>
      obtain ⟨fs', hrun, hlast⟩ := ih (Function.update fs 0 ((fs 0).push x)) (dropped ++ [x]) (by
        rw [Function.update_self, h]
        rfl)
      refine ⟨fs', hrun, ?_⟩
      rw [hlast, List.append_assoc, List.replicate_succ]
      rfl

/-- Such a queue drops everything, and counts that in `size_t`. -/
theorem overrunCounter_replicate (x k : ℕ) :
    ∃ fs qs, Runs.partialRun Fifo.objectStep (fun _ => .disabled)
        (QueueOp.create 0 0 :: List.replicate k (.pushBack 0 x)) = some fs ∧
      Runs.partialRun objectStep (fun _ => CircularQ.disabled)
        (QueueOp.create 0 0 :: List.replicate k (.pushBack 0 x)) = some qs ∧
      (fs 0).dropped.length = k ∧ (qs 0).overrunCounter = k % sizeT := by
  obtain ⟨fs, hpushes, hlast⟩ := fifo_push_replicate x k
    (Function.update (fun _ => .disabled) 0 (.withCapacity 0)) [] rfl
  have hrun : Runs.partialRun Fifo.objectStep (fun _ => .disabled)
      (QueueOp.create 0 0 :: List.replicate k (.pushBack 0 x)) = some fs := by
    rw [Runs.partialRun, Fifo.objectStep, if_neg (by decide), if_pos (by decide)]
    exact hpushes
  obtain ⟨qs, hqs, hagrees⟩ := Runs.partialRun_simulates objectStep_simulates
    (fun _ => Represents.disabled) hrun
  have hlength : (fs 0).dropped.length = k := by
    rw [hlast, List.nil_append, List.length_replicate]
  exact ⟨fs, qs, hrun, hqs, hlength, hlength ▸ (hagrees 0).agrees.overrunCounter⟩

/-- After `2 ^ 64` dropped items the counter is at `0` again, and the head of a
disabled queue is not below its size. -/
theorem circular_q_counter_wraps :
    (∃ fs qs, Runs.partialRun Fifo.objectStep (fun _ => .disabled)
        (QueueOp.create 0 0 :: List.replicate sizeT (.pushBack 0 7)) = some fs ∧
      Runs.partialRun objectStep (fun _ => CircularQ.disabled)
        (QueueOp.create 0 0 :: List.replicate sizeT (.pushBack 0 7)) = some qs ∧
      (fs 0).dropped.length = sizeT ∧ (qs 0).overrunCounter = 0) ∧
    ¬ (disabled : CircularQ ℕ).head < (disabled : CircularQ ℕ).maxItems := by
  obtain ⟨fs, qs, hfs, hqs, hlength, hcounter⟩ := overrunCounter_replicate 7 sizeT
  rw [Nat.mod_self] at hcounter
  exact ⟨⟨fs, qs, hfs, hqs, hlength, hcounter⟩, Nat.lt_irrefl 0⟩

end CircularQ

end Structlog
