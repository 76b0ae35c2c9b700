import Mathlib.Data.List.DropRight
import Structlog.DupFilterSink

/-!
# The counts of `dup_filter_sink`

A message that is let through is preceded by a notice with the number of those that have been
suppressed since the last one.  As long as no sub-sink throws, nothing is lost and nothing is
counted twice (`Accounts`, `dup_filter_accounts`).

`skip_counter_` is set to zero behind both deliveries.  If a sub-sink has taken the notice and
one throws, the next message that is let through brings the same messages up again
(`dup_filter_counts_twice`).  `dup_filter_notices_bounded` is about the runs in which that
does not happen.
-/

namespace Structlog

open Lib

/-! ## Sub-sinks -/

/-- The sub-sinks that take the message do not throw on it. -/
def Quiet (msg : Record) (sinks : List SinkState) : Prop :=
  ∀ s ∈ sinks, s.sink.shouldLog msg.level = true → s.sink.respond s.seen (.log msg) = none

theorem distSinkIt_quiet {msg : Record} {sinks : List SinkState} (h : Quiet msg sinks) :
    distSinkIt msg sinks = (none, sinks.map (·.deliver (.log msg) (·.shouldLog msg.level))) := by
  induction sinks with
  | nil => rfl
  | cons s rest ih =>
      obtain ⟨hfirst, hrest⟩ := List.forall_mem_cons.mp h
      rw [distSinkIt, ih hrest, List.map_cons, SinkState.deliver]
      split_ifs with hlevel
      · rw [SinkState.receive, hfirst hlevel]
        rfl
      · rfl

/-- A sub-sink that takes every message and never throws. -/
structure Sink.Accepting (sink : Sink) : Prop where
  shouldLog : ∀ level, sink.shouldLog level = true
  respond : ∀ seen event, sink.respond seen event = none

/-- A sub-sink after messages that it has taken. -/
def SinkState.takes (msgs : List Record) (s : SinkState) : SinkState :=
  { s with seen := s.seen ++ msgs.map .log }

theorem SinkState.takes_takes (first second : List Record) (s : SinkState) :
    (s.takes first).takes second = s.takes (first ++ second) := by
  rw [takes, takes, takes, List.map_append, List.append_assoc]

theorem distSinkIt_accepting (msg : Record) {sinks : List SinkState}
    (h : ∀ s ∈ sinks, s.sink.Accepting) :
    distSinkIt msg sinks = (none, sinks.map (·.takes [msg])) := by
  have hquiet : Quiet msg sinks := fun s hs _ => (h s hs).respond _ _
  rw [distSinkIt_quiet hquiet]
  refine congrArg (Prod.mk none) (List.map_congr_left fun s hs => ?_)
  rw [SinkState.deliver, if_pos ((h s hs).shouldLog _)]
  rfl

namespace DupFilterSink

/-! ## What a message brings about -/

/-- The text of a notice. -/
def noticeText (count : ℕ) : Bytes :=
  ascii "Skipped " ++ decimal count ++ ascii " duplicate messages.."

/-- The count in the notice before the message, if there is one. -/
def notice (d : DupFilterSink) (msg : Record) : Option ℕ :=
  if d.filter msg = true ∧ 0 < d.skipCounter then some (d.skipCounter % 2 ^ 32) else none

/-- What the sub-sinks are handed. -/
def delivered (stamp : Logger.Stamp) (msg : Record) (d : DupFilterSink) : List Record :=
  if d.filter msg then
    ((d.notice msg).map fun count => LogMsg.new stamp.time stamp.threadId {} msg.loggerName
      .info (noticeText count)).toList ++ [msg]
  else []

/-- The step, for sub-sinks that do not throw. -/
theorem sinkIt_accepting (stamp : Logger.Stamp) (msg : Record) {d : DupFilterSink}
    (h : ∀ s ∈ d.sinks, s.sink.Accepting) :
    d.sinkIt stamp msg =
      (none,
        if d.filter msg then
          { d with
            sinks := d.sinks.map (·.takes (d.delivered stamp msg))
            lastMsgTime := msg.time
            skipCounter := 0
            lastMsgPayload := msg.payload
            forwarded := d.forwarded ++ [msg] }
        else { d with skipCounter := (d.skipCounter + 1) % sizeT }) := by
  have hsend (msg : Record) {d : DupFilterSink} (h : ∀ s ∈ d.sinks, s.sink.Accepting) :
      d.distribute msg = (none, { d with sinks := d.sinks.map (·.takes [msg]) }) := by
    rw [distribute, distSinkIt_accepting msg h]
    rfl
  cases hfilter : d.filter msg with
  | false =>
      rw [sinkIt, hfilter]
      rfl
  | true =>
      rw [sinkIt, delivered, notice, hfilter, if_pos rfl, if_pos rfl, if_pos rfl]
      by_cases hskipped : 0 < d.skipCounter
      · have hafter : ∀ s ∈ d.sinks.map (·.takes [d.skippedMsg stamp msg]),
            s.sink.Accepting := by
          intro s hs
          obtain ⟨before, hbefore, rfl⟩ := List.mem_map.mp hs
          exact h before hbefore
        rw [if_pos hskipped, if_pos ⟨rfl, hskipped⟩, hsend _ h]
        dsimp only [Outcome.andThen]
        rw [hsend (d := { d with sinks := d.sinks.map (·.takes [d.skippedMsg stamp msg]) })
          msg hafter]
        simp only [List.map_map, Function.comp_def, SinkState.takes_takes]
        rfl
      · rw [if_neg hskipped, if_neg fun hboth => hskipped hboth.2]
        dsimp only [Outcome.andThen]
        rw [hsend msg h]
        rfl

/-! ## Accounting -/

/-- One call with its state before. -/
abbrev Step := DupFilterSink × Logger.Stamp × Record

def run (d : DupFilterSink) (msgs : List (Logger.Stamp × Record)) : DupFilterSink :=
  Runs.run (fun d m => (d.sinkIt m.1 m.2).2) d msgs

/-- How many messages have been suppressed since the last one that was let through. -/
def suppressedSince (before : List Step) : ℕ :=
  (before.rtakeWhile fun p => !p.1.filter p.2.2).length

theorem suppressedSince_concat (before : List Step) (p : Step) :
    suppressedSince (before ++ [p]) =
      if p.1.filter p.2.2 then 0 else suppressedSince before + 1 := by
  rw [suppressedSince, List.rtakeWhile_concat]
  cases p.1.filter p.2.2 with
  | true => rfl
  | false =>
      rw [if_pos (by rfl), List.length_append]
      rfl

theorem suppressedSince_le (before : List Step) : suppressedSince before ≤ before.length :=
  (List.rtakeWhile_suffix _ before).length_le

/-- What the counter, the memory and the sub-sinks have to do with the calls so far. -/
structure Accounts (maxSkipDuration : ℤ) (sinks : List SinkState) (before : List Step)
    (d : DupFilterSink) : Prop where
  maxSkipDuration : d.maxSkipDuration = maxSkipDuration
  sinks : d.sinks = sinks.map (·.takes (before.flatMap fun p => p.1.delivered p.2.1 p.2.2))
  remembers : d.Remembers
  counter : d.skipCounter = suppressedSince before
  total : d.forwarded.length + (before.map fun p => (p.1.notice p.2.2).getD 0).sum +
    d.skipCounter = before.length

theorem accounts_new (maxSkipDuration : ℤ) (sinks : List SinkState) :
    Accounts maxSkipDuration sinks [] (new maxSkipDuration sinks) where
  maxSkipDuration := rfl
  sinks := by
    have hnothing (s : SinkState) : s.takes [] = s := by
      rw [SinkState.takes, List.map_nil, List.append_nil]
    exact (List.map_id'' hnothing sinks).symm
  remembers := remembers_new maxSkipDuration sinks
  counter := rfl
  total := rfl

/-- The count in the notice is that of the suppressed messages. -/
theorem Accounts.notice {maxSkipDuration : ℤ} {sinks : List SinkState} {before : List Step}
    {d : DupFilterSink} (h : Accounts maxSkipDuration sinks before d)
    (hfew : before.length < 2 ^ 32) {msg : Record} (hfilter : d.filter msg = true) :
    d.notice msg = if suppressedSince before = 0 then none else some (suppressedSince before) := by
  have hle := suppressedSince_le before
  rw [DupFilterSink.notice, h.counter, hfilter]
  by_cases hzero : suppressedSince before = 0
  · rw [if_pos hzero, if_neg fun hboth => hboth.2.ne' hzero]
  · rw [if_neg hzero, if_pos ⟨rfl, Nat.pos_of_ne_zero hzero⟩, Nat.mod_eq_of_lt (by omega)]

theorem Accounts.sinkIt {maxSkipDuration : ℤ} {sinks : List SinkState} {before : List Step}
    {d : DupFilterSink} (h : Accounts maxSkipDuration sinks before d)
    (hsinks : ∀ s ∈ sinks, s.sink.Accepting) (hfew : before.length < 2 ^ 32)
    (stamp : Logger.Stamp) (msg : Record) :
    Accounts maxSkipDuration sinks (before ++ [(d, stamp, msg)]) (d.sinkIt stamp msg).2 := by
  have haccepting : ∀ s ∈ d.sinks, s.sink.Accepting := by
    intro s hs
    rw [h.sinks] at hs
    obtain ⟨start, hstart, rfl⟩ := List.mem_map.mp hs
    exact hsinks start hstart
  have hremembers := h.remembers.sinkIt stamp msg
  have hsince := suppressedSince_concat before (d, stamp, msg)
  have htotal := h.total
  have hfewer : d.skipCounter < 2 ^ 32 := by
    have hle := suppressedSince_le before
    have hcounter := h.counter
    omega
  rw [sinkIt_accepting stamp msg haccepting] at hremembers ⊢
  cases hfilter : d.filter msg with
  | false =>
      -- A suppressed message is only counted.
      have hdelivered : d.delivered stamp msg = [] := by
        rw [delivered, hfilter]
        rfl
      have hnotice : d.notice msg = none := by
        rw [DupFilterSink.notice, hfilter]
        rfl
      have hroom : (d.skipCounter + 1) % sizeT = d.skipCounter + 1 := by
        apply Nat.mod_eq_of_lt
        rw [sizeT]
        omega
      rw [hfilter] at hremembers hsince
      refine ⟨h.maxSkipDuration, ?_, hremembers, ?_, ?_⟩
      · rw [List.flatMap_append, List.flatMap_singleton, hdelivered, List.append_nil]
        exact h.sinks
      · exact (hroom.trans (congrArg (· + 1) h.counter)).trans hsince.symm
      · rw [List.map_append, List.sum_append, List.map_singleton, List.sum_singleton, hnotice,
          List.length_append, List.length_singleton, ← htotal]
        exact congrArg _ hroom
  | true =>
      -- The notice tells what has been counted, and the counting starts again.
      have hnotice : (d.notice msg).getD 0 = d.skipCounter := by
        rw [h.notice hfew hfilter, h.counter]
        split_ifs with hzero
        · exact hzero.symm
        · rfl
      rw [hfilter] at hremembers hsince
      refine ⟨h.maxSkipDuration, ?_, hremembers, hsince.symm, ?_⟩
      · rw [if_pos rfl, List.flatMap_append, List.flatMap_singleton, h.sinks, List.map_map]
        exact List.map_congr_left fun s _ => SinkState.takes_takes _ _ s
      · rw [List.map_append, List.sum_append, List.map_singleton, List.sum_singleton, hnotice,
          List.length_append, List.length_singleton, ← htotal]
        simp only [if_true, List.length_append, List.length_singleton]
        omega

/-- What the filter makes of a message after the calls before: it is suppressed only if it
repeats the last one that was let through, soon enough after it. -/
structure Handled (maxSkipDuration : ℤ) (before : List Step) (p : Step) : Prop where
  notice : p.1.filter p.2.2 = true → p.1.notice p.2.2 =
    if suppressedSince before = 0 then none else some (suppressedSince before)
  payload : p.1.filter p.2.2 = false →
    p.2.2.payload = (p.1.forwarded.getLast?.map LogMsg.payload).getD []
  time : p.1.filter p.2.2 = false →
    p.2.2.time - (p.1.forwarded.getLast?.map LogMsg.time).getD 0 ≤ maxSkipDuration * 1000

theorem Accounts.handled {maxSkipDuration : ℤ} {sinks : List SinkState} {before : List Step}
    {d : DupFilterSink} (h : Accounts maxSkipDuration sinks before d)
    (hfew : before.length < 2 ^ 32) (stamp : Logger.Stamp) (msg : Record) :
    Handled maxSkipDuration before (d, stamp, msg) where
  notice hfilter := h.notice hfew hfilter
  payload hfilter := ((filter_eq_false msg d).mp hfilter).2.trans h.remembers.payload
  time hfilter := by
    have hwindow := ((filter_eq_false msg d).mp hfilter).1
    rw [inWindow, decide_eq_true_iff, h.remembers.time, h.maxSkipDuration] at hwindow
    exact hwindow

/-- Every message is accounted for: it was let through, is in the count of a notice, or is
in `skip_counter_`.  A notice stands before each message that is let through after suppressed
ones, with their number, and only repetitions are suppressed. -/
theorem dup_filter_accounts (maxSkipDuration : ℤ) {sinks : List SinkState}
    (hsinks : ∀ s ∈ sinks, s.sink.Accepting) (msgs : List (Logger.Stamp × Record))
    (hfew : msgs.length < 2 ^ 32) :
    ((new maxSkipDuration sinks).run msgs).sinks = sinks.map (·.takes
        (((new maxSkipDuration sinks).steps msgs).flatMap fun p => p.1.delivered p.2.1 p.2.2)) ∧
      ((new maxSkipDuration sinks).run msgs).forwarded.length +
          (((new maxSkipDuration sinks).steps msgs).map fun p =>
            (p.1.notice p.2.2).getD 0).sum +
          ((new maxSkipDuration sinks).run msgs).skipCounter = msgs.length ∧
      ∀ before p after, (new maxSkipDuration sinks).steps msgs = before ++ p :: after →
        Handled maxSkipDuration before p := by
  have hlength : ((new maxSkipDuration sinks).steps msgs).length = msgs.length :=
    Runs.length_trace _ msgs
  have hstep (before : List Step) (d : DupFilterSink) (m : Logger.Stamp × Record)
      (h : before.length < 2 ^ 32 → Accounts maxSkipDuration sinks before d) (_ : True)
      (hfew : (before ++ [(d, m)]).length < 2 ^ 32) :
      Accounts maxSkipDuration sinks (before ++ [(d, m)]) (d.sinkIt m.1 m.2).2 := by
    rw [List.length_append] at hfew
    have hbefore : before.length < 2 ^ 32 := Nat.lt_of_le_of_lt (Nat.le_add_right _ _) hfew
    exact (h hbefore).sinkIt hsinks hbefore m.1 m.2
  obtain ⟨hend, hcalls⟩ := Runs.history_of_steps
    (motive := fun before d => before.length < 2 ^ 32 → Accounts maxSkipDuration sinks before d)
    hstep [] (fun _ => accounts_new maxSkipDuration sinks) msgs fun _ _ => trivial
  have haccounts : Accounts maxSkipDuration sinks ((new maxSkipDuration sinks).steps msgs)
      ((new maxSkipDuration sinks).run msgs) := hend (hlength.trans_lt hfew)
  refine ⟨haccounts.sinks, haccounts.total.trans hlength, fun before p after h => ?_⟩
  have hbefore : before.length < 2 ^ 32 := by
    have hlengths := congrArg List.length h
    rw [hlength, List.length_append] at hlengths
    omega
  exact (hcalls before p after h hbefore).handled hbefore p.2.1 p.2.2

/-- A message of a logger. -/
def messageOf (time : ℤ) (payload : Bytes) : Logger.Stamp × Record :=
  (⟨time, 1⟩, .new time 1 {} (ascii "log") .info payload)

def openSink : SinkState := ⟨⟨.trace, fun _ _ => none⟩, []⟩

/-- Three times the same, and something else. -/
theorem dup_filter_accounts_three :
    ((new 5000000 [openSink]).run [messageOf 10 (ascii "x"), messageOf 20 (ascii "x"),
        messageOf 30 (ascii "x"), messageOf 40 (ascii "y")]).sinks =
      [openSink.takes [(messageOf 10 (ascii "x")).2, (messageOf 40 (noticeText 2)).2,
        (messageOf 40 (ascii "y")).2]] := by
  have haccepting : ∀ s ∈ [openSink], s.sink.Accepting := by
    intro s hs
    obtain rfl := List.mem_singleton.mp hs
    exact ⟨fun level => by cases level <;> rfl, fun _ _ => rfl⟩
  exact (dup_filter_accounts 5000000 haccepting [messageOf 10 (ascii "x"),
    messageOf 20 (ascii "x"), messageOf 30 (ascii "x"), messageOf 40 (ascii "y")]
    (by decide)).1

/-! ## Sub-sinks that throw -/

/-- How many calls the sub-sink at a position has seen. -/
def seenLength (sinks : List SinkState) (i : ℕ) : ℕ := (sinks[i]?.map (·.seen.length)).getD 0

/-- The count in the notice that the sub-sink at a position receives in a call. -/
def received (i : ℕ) (p : Step) : ℕ :=
  if seenLength p.1.sinks i <
      seenLength (p.1.distribute (p.1.skippedMsg p.2.1 p.2.2)).2.sinks i then
    (p.1.notice p.2.2).getD 0
  else 0

/-- How many messages have been suppressed. -/
def suppressed (steps : List Step) : ℕ := steps.countP fun p => !p.1.filter p.2.2

/-- Behind suppressed messages, no sub-sink throws on the notice or on the message; or there is
none that takes the notice. -/
def Safe (p : Step) : Prop :=
  p.1.filter p.2.2 = true → 0 < p.1.skipCounter →
    (∀ s ∈ p.1.sinks, s.sink.shouldLog .info = false) ∨
      Quiet (p.1.skippedMsg p.2.1 p.2.2) p.1.sinks ∧
        Quiet p.2.2 (p.1.distribute (p.1.skippedMsg p.2.1 p.2.2)).2.sinks

theorem received_le (i : ℕ) (p : Step) : received i p ≤ p.1.skipCounter := by
  rw [received, notice]
  split_ifs
  · exact Nat.mod_le _ _
  · exact Nat.zero_le _
  · exact Nat.zero_le _

theorem received_eq_zero_of_filter {p : Step} (h : p.1.filter p.2.2 = false) (i : ℕ) :
    received i p = 0 := by
  have hnone : ¬ (p.1.filter p.2.2 = true ∧ 0 < p.1.skipCounter) := fun hboth =>
    Bool.eq_false_iff.mp h hboth.1
  rw [received, notice, if_neg hnone]
  exact ite_self 0

/-- A sub-sink above the level of notices receives none. -/
theorem received_eq_zero_of_level {p : Step}
    (h : ∀ s ∈ p.1.sinks, s.sink.shouldLog .info = false) (i : ℕ) : received i p = 0 := by
  have hlevel : (p.1.skippedMsg p.2.1 p.2.2).level = .info := rfl
  have hquiet : Quiet (p.1.skippedMsg p.2.1 p.2.2) p.1.sinks := fun s hs htakes => by
    rw [hlevel, h s hs] at htakes
    cases htakes
  have hsame : (p.1.distribute (p.1.skippedMsg p.2.1 p.2.2)).2.sinks = p.1.sinks := by
    rw [distribute, distSinkIt_quiet hquiet]
    refine (List.map_congr_left fun s hs => ?_).trans (List.map_id _)
    rw [SinkState.deliver, hlevel, h s hs]
    rfl
  rw [received, hsame, if_neg (lt_irrefl _)]

/-- A call in which no sub-sink throws returns. -/
theorem sinkIt_returns {stamp : Logger.Stamp} {msg : Record} {d : DupFilterSink}
    (hskipped : 0 < d.skipCounter) (hnotice : Quiet (d.skippedMsg stamp msg) d.sinks)
    (hmsg : Quiet msg (d.distribute (d.skippedMsg stamp msg)).2.sinks) :
    (d.sinkIt stamp msg).1 = none := by
  have hfirst : (d.distribute (d.skippedMsg stamp msg)).1 = none := by
    rw [distribute, distSinkIt_quiet hnotice]
    rfl
  have hsecond : ((d.distribute (d.skippedMsg stamp msg)).2.distribute msg).1 = none := by
    rw [distribute, distSinkIt_quiet hmsg]
    rfl
  rw [sinkIt, if_pos hskipped]
  split_ifs
  · rw [Outcome.andThen_returned hfirst, Outcome.andThen_returned hsecond]
  · rfl

/-- What a sub-sink has been told, and what is still to be told. -/
def Told (before : List Step) (d : DupFilterSink) : Prop :=
  ∀ i, (before.map (received i)).sum + d.skipCounter ≤ suppressed before

theorem told_sinkIt (before : List Step) (d : DupFilterSink) (m : Logger.Stamp × Record)
    (h : Told before d) (hsafe : Safe (d, m)) :
    Told (before ++ [(d, m)]) (d.sinkIt m.1 m.2).2 := by
  intro i
  have hbefore := h i
  have hle := received_le i (d, m)
  have hcount : suppressed (before ++ [(d, m)]) =
      suppressed before + if d.filter m.2 then 0 else 1 := by
    rw [suppressed, List.countP_append, List.countP_singleton]
    cases d.filter m.2 <;> rfl
  rw [List.map_append, List.sum_append, List.map_singleton, List.sum_singleton, hcount]
  rcases d.sinkIt_cases m.1 m.2 with ⟨hfilter, heq⟩ | ⟨hfilter, sinks, heq⟩ |
    ⟨hfilter, thrown, sinks, heq⟩
  · have hzero : received i (d, m) = 0 := received_eq_zero_of_filter hfilter i
    have hcounter : (d.skipCounter + 1) % sizeT ≤ d.skipCounter + 1 := Nat.mod_le _ _
    rw [heq, hfilter, hzero]
    dsimp only
    rw [if_neg Bool.false_ne_true]
    omega
  · rw [heq, if_pos hfilter]
    dsimp only at hle ⊢
    omega
  · -- the counter stays, so the sub-sink must not have been told
    have hzero : received i (d, m) = 0 := by
      rcases Nat.eq_zero_or_pos d.skipCounter with hnone | hskipped
      · exact Nat.le_zero.mp (hle.trans hnone.le)
      · rcases hsafe hfilter hskipped with hlevel | ⟨hnotice, hmsg⟩
        · exact received_eq_zero_of_level hlevel i
        · have hreturned := sinkIt_returns hskipped hnotice hmsg
          rw [heq] at hreturned
          cases hreturned
    rw [heq, if_pos hfilter, hzero]
    dsimp only
    omega

/-- As long as sub-sinks throw only where no notice is told twice, none is told of more messages
than have been suppressed. -/
theorem dup_filter_notices_bounded (maxSkipDuration : ℤ) (sinks : List SinkState)
    (msgs : List (Logger.Stamp × Record))
    (h : ∀ p ∈ (new maxSkipDuration sinks).steps msgs, Safe p) :
    (∀ i, (((new maxSkipDuration sinks).steps msgs).map (received i)).sum ≤
        suppressed ((new maxSkipDuration sinks).steps msgs)) ∧
      ∀ before p after, (new maxSkipDuration sinks).steps msgs = before ++ p :: after →
        ∀ i, (before.map (received i)).sum ≤ suppressed before := by
  have htold : Told [] (new maxSkipDuration sinks) := fun _ => le_rfl
  obtain ⟨hend, hcalls⟩ := Runs.history_of_steps (C := fun d m => Safe (d, m)) told_sinkIt [] htold
    msgs h
  exact ⟨fun i => (Nat.le_add_right _ _).trans (hend i), fun before p after hsplit i =>
    (Nat.le_add_right _ _).trans (hcalls before p after hsplit i)⟩

/-- A sub-sink that throws on one call. -/
def failingSink (call : ℕ) : SinkState :=
  ⟨⟨.trace, fun seen _ => if seen.length = call then some (.std (ascii "disk full")) else none⟩, []⟩

theorem failingSink_stdOnly (call : ℕ) : (failingSink call).sink.StdOnly := by
  intro seen event
  unfold failingSink
  dsimp only
  split_ifs
  · exact fun h => Thrown.noConfusion (Option.some.inj h)
  · exact Option.some_ne_none _ |>.symm

/-- The sub-sink throws on a message without a notice, and takes the notice later. -/
theorem dup_filter_notices_bounded_failing :
    (((new 5000000 [failingSink 0]).steps [messageOf 10 (ascii "x"),
        messageOf 20 (ascii "x"), messageOf 30 (ascii "x"),
        messageOf 40 (ascii "y")]).map (received 0)).sum ≤
      suppressed ((new 5000000 [failingSink 0]).steps [messageOf 10 (ascii "x"),
        messageOf 20 (ascii "x"), messageOf 30 (ascii "x"), messageOf 40 (ascii "y")]) := by
  refine (dup_filter_notices_bounded 5000000 [failingSink 0] [messageOf 10 (ascii "x"),
    messageOf 20 (ascii "x"), messageOf 30 (ascii "x"), messageOf 40 (ascii "y")] ?_).1 0
  unfold Safe Quiet
  decide

/-- The message behind the notice fails, and the next one brings the notice again. -/
theorem dup_filter_counts_twice :
    ¬ ∀ (maxSkipDuration : ℤ) (sinks : List SinkState), (∀ s ∈ sinks, s.sink.StdOnly) →
      ∀ (msgs : List (Logger.Stamp × Record)) (i : ℕ),
        (((new maxSkipDuration sinks).steps msgs).map (received i)).sum ≤
          suppressed ((new maxSkipDuration sinks).steps msgs) := by
  intro h
  have hstd : ∀ s ∈ [failingSink 2], s.sink.StdOnly := by
    intro s hs
    obtain rfl := List.mem_singleton.mp hs
    exact failingSink_stdOnly 2
  exact absurd (h 5000000 [failingSink 2] hstd [messageOf 10 (ascii "x"),
    messageOf 20 (ascii "x"), messageOf 30 (ascii "y"), messageOf 40 (ascii "y")] 0) (by decide)

end DupFilterSink

end Structlog
