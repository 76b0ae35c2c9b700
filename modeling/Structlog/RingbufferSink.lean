import Structlog.CircularQObjects
import Structlog.LogMsg

/-!
# `ringbuffer_sink`

The sink keeps the latest messages in a ring, and gives copies of them on demand, as they are
or formatted.  The window is found by a subtraction from the number of messages there are, and
its indices go to `at`, which asserts that there are such messages.

`Keeps` says what the ring holds after any calls: the latest of what has been logged, or, for the
one size that wraps around, nothing.
-/

namespace Structlog

open Lib Lib.BoundedFifo

variable {φ ε : Type*}

structure RingbufferSink (φ : Type*) where
  formatter : φ
  q : CircularQ Record

namespace RingbufferSink

/-- `ringbuffer_sink(n_items)`, unless the vector cannot be that long. -/
def new (formatter : φ) (nItems : ℕ) : Option (RingbufferSink φ) :=
  (CircularQ.construct nItems).map fun q => ⟨formatter, q⟩

/-- `sink_it_`. -/
def sinkIt (msg : Record) (s : RingbufferSink φ) : Option (RingbufferSink φ) :=
  (s.q.pushBackChecked (LogMsgBuffer.stored s.q.tail msg)).map fun q => { s with q }

/-- `n_items` of `last_raw` and `last_formatted`. -/
def nItems (lim itemsAvailable : ℕ) : ℕ :=
  if 0 < lim then min lim itemsAvailable else itemsAvailable

/-- The indices of their loops. -/
def indices (lim : ℕ) (s : RingbufferSink φ) : List ℕ :=
  let itemsAvailable := s.q.size
  let first := itemsAvailable - nItems lim itemsAvailable
  List.range' first (itemsAvailable - first)

/-- The loop of `last_raw`, with what is in `ret` from there on. -/
def lastRawLoop (q : CircularQ Record) : List ℕ → Option (List Record)
  | [] => some []
  | i :: rest =>
      (q.itemAtChecked i).bind fun item =>
        (lastRawLoop q rest).map fun ret => (LogMsgBuffer.copyOf i item).record i :: ret

def lastRaw (lim : ℕ) (s : RingbufferSink φ) : Option (List Record × RingbufferSink φ) :=
  (lastRawLoop s.q (s.indices lim)).map fun ret => (ret, s)

/-- The loop of `last_formatted`; the formatter may throw, and may change itself. -/
def lastFormattedLoop (format : Record → φ → Except ε Bytes × φ) (q : CircularQ Record) :
    List ℕ → φ → Option (Except ε (List Bytes) × φ)
  | [], formatter => some (.ok [], formatter)
  | i :: rest, formatter =>
      (q.itemAtChecked i).bind fun item =>
        match format item formatter with
        | (.error thrown, formatter) => some (.error thrown, formatter)
        | (.ok formatted, formatter) =>
            (lastFormattedLoop format q rest formatter).map fun (ret, formatter) =>
              (ret.map (formatted :: ·), formatter)

def lastFormatted (format : Record → φ → Except ε Bytes × φ) (lim : ℕ) (s : RingbufferSink φ) :
    Option (Except ε (List Bytes) × RingbufferSink φ) :=
  (lastFormattedLoop format s.q (s.indices lim) s.formatter).map fun (ret, formatter) =>
    (ret, { s with formatter })

end RingbufferSink

/-- What is done with the sink. -/
inductive RingbufferCall (φ : Type*)
  | log (msg : Record)
  | lastRaw (lim : ℕ)
  | lastFormatted (lim : ℕ)
  | setFormatter (formatter : φ)

/-- The message that is logged. -/
def RingbufferCall.logged : RingbufferCall φ → Option Record
  | log msg => some msg
  | _ => none

namespace RingbufferSink

def step (format : Record → φ → Except ε Bytes × φ) (s : RingbufferSink φ) :
    RingbufferCall φ → Option (RingbufferSink φ)
  | .log msg => s.sinkIt msg
  | .lastRaw lim => (s.lastRaw lim).map Prod.snd
  | .lastFormatted lim => (s.lastFormatted format lim).map Prod.snd
  | .setFormatter formatter => some { s with formatter }

/-! ## What is returned -/

/-- Messages formatted one after the other, until the formatter throws. -/
def formatEach (format : Record → φ → Except ε Bytes × φ) :
    List Record → φ → Except ε (List Bytes) × φ
  | [], formatter => (.ok [], formatter)
  | msg :: rest, formatter =>
      match format msg formatter with
      | (.error thrown, formatter) => (.error thrown, formatter)
      | (.ok formatted, formatter) =>
          let (ret, formatter) := formatEach format rest formatter
          (ret.map (formatted :: ·), formatter)

/-- Both calls return these messages, and leave the ring as it is. -/
structure Returns (format : Record → φ → Except ε Bytes × φ) (lim : ℕ) (msgs : List Record)
    (s : RingbufferSink φ) : Prop where
  raw : s.lastRaw lim = some (msgs, s)
  formatted : s.lastFormatted format lim = some ((formatEach format msgs s.formatter).1,
    { s with formatter := (formatEach format msgs s.formatter).2 })

theorem lastRawLoop_eq {q : CircularQ Record}
    (h : ∀ i < q.size, q.itemAtChecked i = q.toList[i]?) {first count : ℕ}
    (hcount : first + count = q.size) :
    lastRawLoop q (List.range' first count) = some (q.toList.drop first) := by
  induction count generalizing first with
  | zero =>
      have hlast : q.toList.length ≤ first := by
        rw [CircularQ.length_toList]
        omega
      rw [List.drop_of_length_le hlast]
      rfl
  | succ count ih =>
      have hlt : first < q.size := by omega
      have hlt' : first < q.toList.length := by rwa [CircularQ.length_toList]
      rw [List.range'_succ, lastRawLoop, h first hlt, List.getElem?_eq_getElem hlt',
        Option.bind_some, ih (by omega), Option.map_some, (LogMsgBuffer.selfContained_copyOf _ _).2,
        List.drop_eq_getElem_cons hlt']

/-- The messages that are formatted are those that `last_raw` copies. -/
theorem lastFormattedLoop_eq (format : Record → φ → Except ε Bytes × φ) {q : CircularQ Record}
    {indices : List ℕ} {msgs : List Record} (h : lastRawLoop q indices = some msgs)
    (formatter : φ) :
    lastFormattedLoop format q indices formatter = some (formatEach format msgs formatter) := by
  induction indices generalizing msgs formatter with
  | nil =>
      obtain rfl := Option.some.inj h
      rfl
  | cons i rest ih =>
      obtain ⟨item, hitem, hrest⟩ := Option.bind_eq_some_iff.mp h
      obtain ⟨ret, hret, rfl⟩ := Option.map_eq_some_iff.mp hrest
      rw [lastFormattedLoop, hitem, Option.bind_some, (LogMsgBuffer.selfContained_copyOf _ _).2,
        formatEach]
      rcases format item formatter with ⟨thrown | formatted, formatter'⟩
      · rfl
      · dsimp only
        rw [ih hret]
        rfl

theorem nItems_le (lim itemsAvailable : ℕ) : nItems lim itemsAvailable ≤ itemsAvailable := by
  unfold nItems
  split_ifs
  · exact min_le_right lim itemsAvailable
  · exact le_rfl

theorem lt_of_mem_indices {lim : ℕ} {s : RingbufferSink φ} {i : ℕ} (h : i ∈ s.indices lim) :
    i < s.q.size := by
  have hle := nItems_le lim s.q.size
  obtain ⟨-, hlt⟩ := List.mem_range'_1.mp h
  omega

/-- If `at` gives the messages in the ring, the latest of them are returned. -/
theorem returns_latest (format : Record → φ → Except ε Bytes × φ) {s : RingbufferSink φ}
    (h : ∀ i < s.q.size, s.q.itemAtChecked i = s.q.toList[i]?) (lim : ℕ) :
    s.Returns format lim (latest (nItems lim s.q.size) s.q.toList) := by
  have hle := nItems_le lim s.q.size
  have hloop : lastRawLoop s.q (s.indices lim) =
      some (latest (nItems lim s.q.size) s.q.toList) := by
    rw [latest, CircularQ.length_toList]
    exact lastRawLoop_eq h (by omega)
  constructor
  case raw => rw [lastRaw, hloop, Option.map_some]
  case formatted =>
    rw [lastFormatted, lastFormattedLoop_eq format hloop, Option.map_some]

/-! ## What the ring holds -/

/-- The ring of `ringbuffer_sink(nItems)` after these messages. -/
inductive Keeps (nItems : ℕ) (logged : List Record) (q : CircularQ Record) : Prop
  | ring (f : Fifo Record) (hn : nItems + 1 < sizeT) (represents : CircularQ.Represents q f)
      (capacity : f.capacity = some nItems) (items : f.items = latest nItems logged)
  | wrapped (hn : nItems + 1 = sizeT) (disabled : q = .disabled)

theorem keeps_construct {nItems : ℕ} (hn : nItems < sizeT) {q : CircularQ Record}
    (hq : CircularQ.construct nItems = some q) : Keeps nItems [] q := by
  rw [CircularQ.construct] at hq
  split_ifs at hq with hfits
  obtain rfl := Option.some.inj hq
  by_cases hwrap : nItems + 1 = sizeT
  · apply Keeps.wrapped hwrap
    rw [CircularQ.new, hwrap, Nat.mod_self]
    rfl
  · have hlt : nItems + 1 < sizeT := by omega
    rw [addSizeT, Nat.mod_eq_of_lt hlt] at hfits
    exact .ring _ hlt (.create hfits) rfl (latest_nil _).symm

theorem Keeps.pushBack {nItems : ℕ} {logged : List Record} {q : CircularQ Record}
    (h : Keeps nItems logged q) (msg : Record) :
    ∃ q', q.pushBackChecked msg = some q' ∧ Keeps nItems (logged ++ [msg]) q' := by
  cases h with
  | ring f hn represents capacity items =>
      obtain ⟨q', hpush, hafter⟩ := represents.pushBack msg
      have hitems : (f.push msg).items = latest nItems (logged ++ [msg]) := by
        rw [Fifo.push, capacity, ← push_latest, ← items]
      have hcapacity : (f.push msg).capacity = some nItems := by
        rw [Fifo.push, capacity]
      exact ⟨q', hpush, .ring _ hn hafter hcapacity hitems⟩
  | wrapped hn disabled =>
      rw [disabled]
      exact ⟨_, rfl, .wrapped hn rfl⟩

theorem toList_of_represents {q : CircularQ Record} {f : Fifo Record}
    (h : CircularQ.Represents q f) : q.toList = f.items := by
  cases h with
  | disabled => rfl
  | enabled wellFormed fits capacity items counter => exact items

theorem Keeps.readable {nItems : ℕ} {logged : List Record} {q : CircularQ Record}
    (h : Keeps nItems logged q) : ∀ i < q.size, q.itemAtChecked i = q.toList[i]? := by
  cases h with
  | ring f hn represents capacity items =>
      intro i hi
      have hagrees := represents.agrees
      rw [hagrees.itemAt i (hagrees.size ▸ hi), toList_of_represents represents]
  | wrapped hn disabled =>
      rw [disabled]
      intro i hi
      exact absurd hi (Nat.not_lt_zero i)

theorem Keeps.toList {nItems : ℕ} {logged : List Record} {q : CircularQ Record}
    (h : Keeps nItems logged q) :
    (nItems + 1 < sizeT ∧ q.toList = latest nItems logged) ∨
      (nItems + 1 = sizeT ∧ q.toList = []) := by
  cases h with
  | ring f hn represents capacity items =>
      exact .inl ⟨hn, (toList_of_represents represents).trans items⟩
  | wrapped hn disabled =>
      rw [disabled]
      exact .inr ⟨hn, rfl⟩

/-- No call fails an assertion, and only a message that is logged changes the ring. -/
theorem Keeps.step (format : Record → φ → Except ε Bytes × φ) {nItems : ℕ} {logged : List Record}
    {s : RingbufferSink φ} (h : Keeps nItems logged s.q) (call : RingbufferCall φ) :
    ∃ s', s.step format call = some s' ∧ Keeps nItems (logged ++ call.logged.toList) s'.q := by
  cases call with
  | log msg =>
      obtain ⟨q', hpush, hafter⟩ := h.pushBack msg
      refine ⟨{ s with q := q' }, ?_, hafter⟩
      rw [RingbufferSink.step, sinkIt, LogMsgBuffer.stored_eq, hpush, Option.map_some]
  | lastRaw lim =>
      refine ⟨s, ?_, (List.append_nil logged).symm ▸ h⟩
      rw [RingbufferSink.step, (returns_latest format h.readable lim).raw, Option.map_some]
  | lastFormatted lim =>
      have hformatted := (returns_latest format h.readable lim).formatted
      rw [RingbufferSink.step, hformatted]
      exact ⟨_, rfl, (List.append_nil logged).symm ▸ h⟩
  | setFormatter formatter => exact ⟨_, rfl, (List.append_nil logged).symm ▸ h⟩

theorem Keeps.run (format : Record → φ → Except ε Bytes × φ) {nItems : ℕ} {logged : List Record}
    {s : RingbufferSink φ} (h : Keeps nItems logged s.q) (calls : List (RingbufferCall φ)) :
    ∃ s', Runs.partialRun (RingbufferSink.step format) s calls = some s' ∧
      Keeps nItems (logged ++ calls.filterMap RingbufferCall.logged) s'.q := by
  induction calls generalizing logged s with
  | nil => exact ⟨s, rfl, (List.append_nil logged).symm ▸ h⟩
  | cons call rest ih =>
      obtain ⟨s₁, hstep, hnext⟩ := h.step format call
      obtain ⟨s', hrun, hlast⟩ := ih hnext
      refine ⟨s', ?_, ?_⟩
      · rw [Runs.partialRun, hstep, Option.bind_some, hrun]
      · have hlogged : logged ++ (call :: rest).filterMap RingbufferCall.logged =
            logged ++ call.logged.toList ++ rest.filterMap RingbufferCall.logged := by
          rw [List.append_assoc, List.filterMap_cons]
          cases call.logged <;> rfl
        rwa [hlogged]

/-! ## The sink -/

/-- The last `min m lim` of the messages, or the last `m` if `lim` is zero, where `m` is how many
of them there can be. -/
def latestLogged (nItems lim : ℕ) (logged : List Record) : List Record :=
  let m := min nItems logged.length
  latest (if lim = 0 then m else min m lim) logged

theorem latest_latest {n k : ℕ} (h : k ≤ n) (items : List Record) :
    latest k (latest n items) = latest k items := by
  unfold latest
  rw [List.drop_drop, List.length_drop]
  congr 1
  omega

theorem latestLogged_eq (nItems lim : ℕ) (logged : List Record) :
    latest (RingbufferSink.nItems lim (latest nItems logged).length) (latest nItems logged) =
      latestLogged nItems lim logged := by
  have hlength : (latest nItems logged).length = min nItems logged.length := by
    rw [latest, List.length_drop]
    omega
  have hle := (nItems_le lim (min nItems logged.length)).trans (min_le_left _ _)
  rw [hlength, latest_latest hle, latestLogged, RingbufferSink.nItems, min_comm lim]
  congr 1
  split_ifs <;> omega

/-- After any calls, no index that goes to `at` is beyond the messages there are, and the latest
messages are returned, exactly if the size of the ring has not wrapped around or nothing has
been logged. -/
theorem ringbuffer_sink_returns_latest_iff (format : Record → φ → Except ε Bytes × φ)
    (formatter : φ) {nItems : ℕ} (hn : nItems < sizeT) {created : RingbufferSink φ}
    (hcreated : new formatter nItems = some created) (calls : List (RingbufferCall φ)) :
    ∃ s, Runs.partialRun (step format) created calls = some s ∧
      (∀ lim, ∀ i ∈ s.indices lim, i < s.q.size) ∧
      ((∀ lim, s.Returns format lim
          (latestLogged nItems lim (calls.filterMap RingbufferCall.logged))) ↔
        nItems + 1 < sizeT ∨ calls.filterMap RingbufferCall.logged = []) := by
  obtain ⟨q, hq, rfl⟩ := Option.map_eq_some_iff.mp hcreated
  have hstart : Keeps nItems [] (RingbufferSink.mk formatter q).q := keeps_construct hn hq
  obtain ⟨s, hrun, hkeeps⟩ := hstart.run format calls
  rw [List.nil_append] at hkeeps
  generalize calls.filterMap RingbufferCall.logged = logged at hkeeps ⊢
  refine ⟨s, hrun, fun lim i hi => lt_of_mem_indices hi, ?_⟩
  have hreturns lim := returns_latest format hkeeps.readable lim
  rcases hkeeps.toList with ⟨hlt, hlist⟩ | ⟨hwrap, hlist⟩
  · refine iff_of_true (fun lim => ?_) (.inl hlt)
    have hlim := hreturns lim
    rwa [← CircularQ.length_toList, hlist, latestLogged_eq] at hlim
  · -- a ring without room returns nothing, which is right as long as nothing is logged
    have hempty lim : s.Returns format lim [] := by
      have hlim := hreturns lim
      rwa [hlist, latest_nil] at hlim
    constructor
    · intro hall
      have hraw := (hall 0).raw.symm.trans (hempty 0).raw
      have hnil : latestLogged nItems 0 logged = [] := congrArg Prod.fst (Option.some.inj hraw)
      rw [latestLogged, if_pos rfl] at hnil
      right
      by_contra hne
      have hpos : 0 < min nItems logged.length := by
        have := List.length_pos_iff.mpr hne
        have : sizeT = 2 ^ 64 := rfl
        omega
      exact hne ((latest_eq_nil_iff hpos).mp hnil)
    · rintro (hlt | hnone)
      · omega
      · intro lim
        rw [hnone, latestLogged, latest_nil]
        exact hempty lim

/-- A message with nothing but a text. -/
def textMessage (text : Bytes) : Record := .new 0 0 {} [] .info text

/-- A formatter that counts, as it shows the text. -/
def numbered (msg : Record) (count : ℕ) : Except Empty Bytes × ℕ :=
  (.ok (msg.payload ++ [count.toUInt8]), count + 1)

theorem ringbuffer_sink_returns_latest_two :
    ∃ created, new (0 : ℕ) 2 = some created ∧
      ∃ s, Runs.partialRun (step numbered) created
          [.log (textMessage (ascii "a")), .log (textMessage (ascii "b")), .lastFormatted 1,
            .log (textMessage (ascii "c"))] = some s ∧
        s.Returns numbered 0 [textMessage (ascii "b"), textMessage (ascii "c")] := by
  obtain ⟨created, hcreated⟩ : ∃ created, new (0 : ℕ) 2 = some created := ⟨_, rfl⟩
  obtain ⟨s, hrun, -, hiff⟩ := ringbuffer_sink_returns_latest_iff numbered 0 (by decide) hcreated
    [.log (textMessage (ascii "a")), .log (textMessage (ascii "b")), .lastFormatted 1,
      .log (textMessage (ascii "c"))]
  exact ⟨created, hcreated, s, hrun, hiff.mpr (.inl (by decide)) 0⟩

/-- With the largest size there is, the message that has been logged is not there. -/
theorem ringbuffer_sink_forgets :
    ∃ created s, new (0 : ℕ) (sizeT - 1) = some created ∧
      Runs.partialRun (step numbered) created [.log (textMessage (ascii "a"))] = some s ∧
      s.lastRaw 0 = some ([], s) ∧
      latestLogged (sizeT - 1) 0 [textMessage (ascii "a")] = [textMessage (ascii "a")] ∧
      ¬ s.Returns numbered 0 (latestLogged (sizeT - 1) 0 [textMessage (ascii "a")]) := by
  refine ⟨⟨0, .disabled⟩, ⟨0, .disabled⟩, rfl, rfl, rfl, rfl, ?_⟩
  intro hreturns
  have hraw := hreturns.raw
  cases hraw

end RingbufferSink

end Structlog
