import Mathlib.Data.Nat.ModEq
import Mathlib.Tactic.SplitIfs
import Structlog.Lib.BoundedFifo

/-!
# `circular_q`

The ring over a vector with one cell kept free.  The definitions are the
members of the class; `toList` is what the ring holds, oldest first.

`WellFormed` is the representation invariant: both ends are indices of the
vector.  A ring that was never given a size (or whose size wrapped around) is
disabled: it has no cells, holds nothing and ignores what is pushed.  For an
enabled ring `toList` is a bounded FIFO: `toList_pushBack`, `toList_popFront`,
`empty_iff` and `full_iff` are the specifications of the members, and nothing
outside this file looks at the indices again.
-/

namespace Structlog

open Lib

/-- The number of values of `size_t`. -/
def sizeT : ℕ := 2 ^ 64

structure CircularQ (α : Type*) where
  maxItems : ℕ
  head : ℕ
  tail : ℕ
  overrunCounter : ℕ
  v : List α
  deriving Repr

namespace CircularQ

variable {α : Type*}

/-- The default constructor: a disabled queue with no elements at all. -/
def disabled : CircularQ α := ⟨0, 0, 0, 0, []⟩

def pushBack (q : CircularQ α) (item : α) : CircularQ α :=
  if 0 < q.maxItems then
    let v := q.v.set q.tail item
    let tail := (q.tail + 1) % q.maxItems
    if tail = q.head then -- overrun last item if full
      { q with
        v
        tail
        head := (q.head + 1) % q.maxItems
        overrunCounter := (q.overrunCounter + 1) % sizeT }
    else { q with v, tail }
  else q

def size (q : CircularQ α) : ℕ :=
  if q.head ≤ q.tail then q.tail - q.head else q.maxItems - (q.head - q.tail)

def popFront (q : CircularQ α) : CircularQ α := { q with head := (q.head + 1) % q.maxItems }

def empty (q : CircularQ α) : Bool := q.tail = q.head

def full (q : CircularQ α) : Bool :=
  if 0 < q.maxItems then (q.tail + 1) % q.maxItems = q.head else false

/-- An enabled queue: both ends are indices of the vector. -/
structure WellFormed (q : CircularQ α) : Prop where
  head_lt : q.head < q.maxItems
  tail_lt : q.tail < q.maxItems
  length_v : q.v.length = q.maxItems
  overrunCounter_lt : q.overrunCounter < sizeT

@[simp] theorem maxItems_pushBack (q : CircularQ α) (x : α) :
    (q.pushBack x).maxItems = q.maxItems := by
  simp only [pushBack]
  split_ifs <;> rfl

@[simp] theorem maxItems_popFront (q : CircularQ α) : q.popFront.maxItems = q.maxItems := rfl

variable [Inhabited α]

/-- `circular_q(size_t max_items)`: one item is reserved as marker for full q. -/
def new (maxItems : ℕ) : CircularQ α :=
  ⟨(maxItems + 1) % sizeT, 0, 0, 0, List.replicate ((maxItems + 1) % sizeT) default⟩

def front (q : CircularQ α) : α := q.v.getD q.head default

def itemAt (q : CircularQ α) (i : ℕ) : α := q.v.getD ((q.head + i) % q.maxItems) default

/-- The items in the queue, oldest first. -/
def toList (q : CircularQ α) : List α := (List.range q.size).map q.itemAt

theorem wellFormed_new {n : ℕ} (h : n + 1 < sizeT) : (new n : CircularQ α).WellFormed := by
  have hmod : (n + 1) % sizeT = n + 1 := Nat.mod_eq_of_lt h
  have hzero : 0 < sizeT := by decide
  constructor <;> simp [new, hmod, hzero]

@[simp] theorem toList_new (n : ℕ) : (new n : CircularQ α).toList = [] := rfl

@[simp] theorem length_toList (q : CircularQ α) : q.toList.length = q.size := by
  simp [toList]

namespace WellFormed

variable {q : CircularQ α}

/-! ## The number of items

`size` is the only number below `maxItems` of cells that lead from the head to
the tail, counting around. -/

section

omit [Inhabited α]

theorem maxItems_pos (h : q.WellFormed) : 0 < q.maxItems := Nat.zero_lt_of_lt h.head_lt

theorem size_lt (h : q.WellFormed) : q.size < q.maxItems := by
  have := h.head_lt
  have := h.tail_lt
  unfold size
  split_ifs <;> omega

theorem wrap_size (h : q.WellFormed) : (q.head + q.size) % q.maxItems = q.tail := by
  have hhead := h.head_lt
  have htail := h.tail_lt
  unfold size
  split_ifs with hle
  · rw [show q.head + (q.tail - q.head) = q.tail by omega, Nat.mod_eq_of_lt htail]
  · rw [show q.head + (q.maxItems - (q.head - q.tail)) = q.tail + q.maxItems by omega,
      Nat.add_mod_right, Nat.mod_eq_of_lt htail]

theorem wrap_inj {i j : ℕ} (hi : i < q.maxItems) (hj : j < q.maxItems)
    (heq : (q.head + i) % q.maxItems = (q.head + j) % q.maxItems) : i = j := by
  have hmod : i ≡ j [MOD q.maxItems] := Nat.ModEq.add_left_cancel' q.head heq
  exact hmod.eq_of_lt_of_lt hi hj

theorem size_eq_of_wrap (h : q.WellFormed) {n : ℕ} (hn : n < q.maxItems)
    (heq : (q.head + n) % q.maxItems = q.tail) : q.size = n :=
  wrap_inj h.size_lt hn (h.wrap_size.trans heq.symm)

theorem wrap_size_succ (h : q.WellFormed) :
    (q.head + (q.size + 1)) % q.maxItems = (q.tail + 1) % q.maxItems := by
  rw [← Nat.add_assoc, ← Nat.mod_add_mod, h.wrap_size]

theorem empty_iff_size (h : q.WellFormed) : q.empty = true ↔ q.size = 0 := by
  rw [empty, decide_eq_true_eq]
  constructor
  · intro heq
    exact h.size_eq_of_wrap h.maxItems_pos (by rw [Nat.add_zero, Nat.mod_eq_of_lt h.head_lt, heq])
  · intro hzero
    rw [← h.wrap_size, hzero, Nat.add_zero, Nat.mod_eq_of_lt h.head_lt]

theorem full_iff_size (h : q.WellFormed) : q.full = true ↔ q.size + 1 = q.maxItems := by
  rw [full, if_pos h.maxItems_pos, decide_eq_true_eq, ← h.wrap_size_succ]
  constructor
  · intro heq
    by_contra hne
    have hlt : q.size + 1 < q.maxItems := lt_of_le_of_ne h.size_lt hne
    have := wrap_inj (j := 0) hlt h.maxItems_pos (by
      rw [heq, Nat.add_zero, Nat.mod_eq_of_lt h.head_lt])
    omega
  · intro heq
    rw [heq, Nat.add_mod_right, Nat.mod_eq_of_lt h.head_lt]

end

theorem empty_iff (h : q.WellFormed) : q.empty = true ↔ q.toList = [] := by
  rw [h.empty_iff_size, ← length_toList, List.length_eq_zero_iff]

theorem full_iff (h : q.WellFormed) : q.full = true ↔ q.toList.length = q.maxItems - 1 := by
  have := h.maxItems_pos
  rw [h.full_iff_size, length_toList]
  omega

theorem length_le (h : q.WellFormed) : q.toList.length ≤ q.maxItems - 1 := by
  have := h.size_lt
  rw [length_toList]
  omega

/-! ## Popping -/

omit [Inhabited α] in
theorem popFront (h : q.WellFormed) : q.popFront.WellFormed where
  head_lt := Nat.mod_lt _ h.maxItems_pos
  tail_lt := h.tail_lt
  length_v := h.length_v
  overrunCounter_lt := h.overrunCounter_lt

theorem itemAt_popFront (q : CircularQ α) (i : ℕ) : q.popFront.itemAt i = q.itemAt (i + 1) := by
  simp only [itemAt, CircularQ.popFront, Nat.mod_add_mod]
  rw [show q.head + 1 + i = q.head + (i + 1) by omega]

omit [Inhabited α] in
theorem size_popFront (h : q.WellFormed) (hne : q.empty = false) :
    q.size = q.popFront.size + 1 := by
  have hpos : q.size ≠ 0 := by
    intro hzero
    simp [h.empty_iff_size.mpr hzero] at hne
  have hlt := h.size_lt
  have hpop : q.popFront.size = q.size - 1 := by
    apply h.popFront.size_eq_of_wrap (n := q.size - 1) (by simp; omega)
    simp only [CircularQ.popFront, Nat.mod_add_mod]
    rw [show q.head + 1 + (q.size - 1) = q.head + q.size by omega, h.wrap_size]
  omega

/-- `front` and `pop_front` take the oldest item off. -/
theorem toList_eq_cons (h : q.WellFormed) (hne : q.empty = false) :
    q.toList = q.front :: q.popFront.toList := by
  have hfront : q.itemAt 0 = q.front := by
    simp [itemAt, front, Nat.mod_eq_of_lt h.head_lt]
  rw [toList, h.size_popFront hne, List.range_succ_eq_map, List.map_cons, List.map_map, hfront,
    toList]
  exact congrArg _ (List.map_congr_left fun i _ => (itemAt_popFront q i).symm)

/-! ## Pushing -/

omit [Inhabited α] in
theorem pushBack (h : q.WellFormed) (x : α) : (q.pushBack x).WellFormed := by
  have hpos := h.maxItems_pos
  have hlength : (q.v.set q.tail x).length = q.maxItems := by simpa using h.length_v
  unfold CircularQ.pushBack
  simp only [if_pos hpos]
  split_ifs
  · exact ⟨Nat.mod_lt _ hpos, Nat.mod_lt _ hpos, hlength, Nat.mod_lt _ (by decide)⟩
  · exact ⟨h.head_lt, Nat.mod_lt _ hpos, hlength, h.overrunCounter_lt⟩

/-- The cells counted from the head after the write at the tail. -/
theorem getD_set_tail (h : q.WellFormed) (x : α) {i : ℕ} (hi : i ≤ q.size) :
    (q.v.set q.tail x).getD ((q.head + i) % q.maxItems) default =
      if i = q.size then x else q.itemAt i := by
  rcases eq_or_lt_of_le hi with rfl | hi
  · have htail : q.tail < q.v.length := h.length_v ▸ h.tail_lt
    rw [h.wrap_size, if_pos rfl, List.getD_eq_getElem?_getD, List.getElem?_set_self htail]
    rfl
  · have hne : q.tail ≠ (q.head + i) % q.maxItems := by
      rw [← h.wrap_size]
      intro heq
      exact hi.ne' (wrap_inj h.size_lt (hi.trans h.size_lt) heq)
    rw [if_neg hi.ne, itemAt, List.getD_eq_getElem?_getD, List.getElem?_set_ne hne,
      List.getD_eq_getElem?_getD]

/-- While there is room, the pushed item is the newest. -/
theorem toList_pushBack_of_room (h : q.WellFormed) (hroom : q.full = false) (x : α) :
    (q.pushBack x).toList = q.toList ++ [x] ∧
      (q.pushBack x).overrunCounter = q.overrunCounter := by
  have hpos := h.maxItems_pos
  have hne : (q.tail + 1) % q.maxItems ≠ q.head := by simpa [full, hpos] using hroom
  have hpush : q.pushBack x =
      { q with v := q.v.set q.tail x, tail := (q.tail + 1) % q.maxItems } := by
    simp [CircularQ.pushBack, hpos, hne]
  have hlt : q.size + 1 < q.maxItems :=
    lt_of_le_of_ne h.size_lt fun heq => by simp [h.full_iff_size.mpr heq] at hroom
  have hsize : (q.pushBack x).size = q.size + 1 := by
    apply (h.pushBack x).size_eq_of_wrap (by simpa using hlt)
    rw [hpush]
    exact h.wrap_size_succ
  refine ⟨?_, by rw [hpush]⟩
  rw [toList, hsize, List.range_succ, List.map_append, toList, List.map_singleton]
  congr 1
  -- The cells before the tail keep their items, and the tail has the new one.
  · apply List.map_congr_left
    intro i hi
    have hi := List.mem_range.mp hi
    rw [hpush]
    exact (h.getD_set_tail x hi.le).trans (if_neg hi.ne)
  · rw [hpush]
    exact congrArg (fun y => [y]) ((h.getD_set_tail x le_rfl).trans (if_pos rfl))

/-- On a full queue the oldest item goes first: pushing there is popping and
then pushing. -/
theorem toList_pushBack_of_full (h : q.WellFormed) (hfull : q.full = true) (x : α) :
    (q.pushBack x).toList = (q.toList ++ [x]).tail ∧
      (q.pushBack x).overrunCounter = (q.overrunCounter + 1) % sizeT := by
  have hpos := h.maxItems_pos
  have heq : (q.tail + 1) % q.maxItems = q.head := by simpa [full, hpos] using hfull
  have hpush : q.pushBack x =
      { q with v := q.v.set q.tail x, tail := (q.tail + 1) % q.maxItems,
               head := (q.head + 1) % q.maxItems,
               overrunCounter := (q.overrunCounter + 1) % sizeT } := by
    simp [CircularQ.pushBack, hpos, heq]
  refine ⟨?_, by rw [hpush]⟩
  have hsize := h.full_iff_size.mp hfull
  by_cases hzero : q.size = 0
  -- No room for any item: what is pushed is dropped at once.
  · have hlength : (q.pushBack x).toList.length = 0 := by
      have := (h.pushBack x).length_le
      simp only [maxItems_pushBack] at this
      omega
    have hempty : q.toList = [] := List.length_eq_zero_iff.mp (by rw [length_toList, hzero])
    rw [List.length_eq_zero_iff.mp hlength, hempty]
    rfl
  · have hne : q.empty = false := Bool.eq_false_iff.mpr (mt h.empty_iff_size.mp hzero)
    have hroom : q.popFront.full = false := by
      have := h.size_popFront hne
      simp only [Bool.eq_false_iff, ne_eq, h.popFront.full_iff_size, maxItems_popFront]
      omega
    -- The head moves on as `pop_front` moves it.
    have hsame : (q.pushBack x).toList = (q.popFront.pushBack x).toList := by
      have hroom' : (q.tail + 1) % q.maxItems ≠ (q.head + 1) % q.maxItems := by
        have hpop := hroom
        rw [full, if_pos (by simpa using hpos), decide_eq_false_iff_not] at hpop
        exact hpop
      have hpush' : q.popFront.pushBack x =
          { q with v := q.v.set q.tail x, tail := (q.tail + 1) % q.maxItems,
                   head := (q.head + 1) % q.maxItems } := by
        simp [CircularQ.pushBack, CircularQ.popFront, hpos, hroom']
      rw [hpush, hpush']
      rfl
    rw [hsame, (h.popFront.toList_pushBack_of_room hroom x).1, h.toList_eq_cons hne]
    rfl

/-- A push is a push onto the bounded FIFO, and the counter counts what that
drops. -/
theorem toList_pushBack (h : q.WellFormed) (x : α) :
    (q.pushBack x).toList = BoundedFifo.push (q.maxItems - 1) q.toList x ∧
      (q.pushBack x).overrunCounter =
        (q.overrunCounter + (BoundedFifo.dropped (q.maxItems - 1) q.toList x).length) % sizeT := by
  by_cases hfull : q.full = true
  · have hlength := h.full_iff.mp hfull
    obtain ⟨hlist, hcounter⟩ := h.toList_pushBack_of_full hfull x
    rw [hlist, hcounter, BoundedFifo.push_of_full hlength, BoundedFifo.dropped_of_full hlength]
    simp
  · have hlength : q.toList.length < q.maxItems - 1 :=
      lt_of_le_of_ne h.length_le (mt h.full_iff.mpr hfull)
    obtain ⟨hlist, hcounter⟩ := h.toList_pushBack_of_room (by simpa using hfull) x
    rw [hlist, hcounter, BoundedFifo.push_of_room hlength, BoundedFifo.dropped_of_room hlength]
    exact ⟨rfl, (Nat.mod_eq_of_lt h.overrunCounter_lt).symm⟩

/-- A full queue takes another item in place of the front. -/
theorem toList_replace (h : q.WellFormed) (hitems : 1 < q.maxItems) (hfull : q.full = true)
    (x : α) :
    ∃ rest, q.toList = q.front :: rest ∧ (q.popFront.pushBack x).toList = rest ++ [x] := by
  have hlength := h.full_iff.mp hfull
  have hnonempty : q.empty = false := by
    rw [← Bool.not_eq_true, h.empty_iff, ← List.length_eq_zero_iff]
    omega
  have hcons := h.toList_eq_cons hnonempty
  have hroom : q.popFront.full = false := by
    rw [← Bool.not_eq_true, h.popFront.full_iff, maxItems_popFront]
    rw [hcons, List.length_cons] at hlength
    omega
  exact ⟨q.popFront.toList, hcons, (h.popFront.toList_pushBack_of_room hroom x).1⟩

/-- Several items for which there is room. -/
theorem foldl_pushBack (h : q.WellFormed) {items : List α}
    (hroom : q.toList.length + items.length < q.maxItems) :
    (items.foldl CircularQ.pushBack q).WellFormed ∧
      (items.foldl CircularQ.pushBack q).maxItems = q.maxItems ∧
      (items.foldl CircularQ.pushBack q).toList = q.toList ++ items := by
  induction items generalizing q with
  | nil => exact ⟨h, rfl, by simp⟩
  | cons x rest ih =>
      rw [List.length_cons] at hroom
      have hnot : q.full = false := by
        rw [← Bool.not_eq_true, h.full_iff]
        omega
      have hpushed := (h.toList_pushBack_of_room hnot x).1
      obtain ⟨hwell, hitems, hlist⟩ := ih (h.pushBack x) (by
        rw [hpushed, List.length_append, List.length_singleton, maxItems_pushBack]
        omega)
      refine ⟨hwell, hitems.trans (maxItems_pushBack q x), ?_⟩
      calc _ = (q.pushBack x).toList ++ rest := hlist
        _ = q.toList ++ [x] ++ rest := by rw [hpushed]
        _ = q.toList ++ x :: rest := List.append_assoc ..

end WellFormed

/-- A new queue with items put in for which there is room. -/
theorem toList_filled {n : ℕ} (hn : n + 1 < sizeT) {items : List α} (h : items.length ≤ n) :
    (items.foldl pushBack (new n)).WellFormed ∧
      (items.foldl pushBack (new n)).maxItems = n + 1 ∧
      (items.foldl pushBack (new n)).toList = items := by
  have hsize : (new n : CircularQ α).maxItems = n + 1 := Nat.mod_eq_of_lt hn
  have hroom : (new n : CircularQ α).toList.length + items.length <
      (new n : CircularQ α).maxItems := by
    rw [toList_new, hsize, List.length_nil]
    omega
  obtain ⟨hwell, hitems, hlist⟩ := (wellFormed_new hn).foldl_pushBack hroom
  exact ⟨hwell, hitems.trans hsize, hlist⟩

end CircularQ

end Structlog
