import Structlog.LogStatements

/-!
# `dup_filter_sink`

The filter in front of the sub-sinks of a `dist_sink`.  `forwarded` is the
history of the messages that the sub-sinks have accepted; the code remembers of
the last one only its time and its payload (`Remembers`), and before the first
one an empty payload at the epoch.

A message that is withheld need not be a duplicate: its parameters are not
looked at.  `truthful_iff` says exactly which messages are withheld wrongly.
-/

namespace Structlog

open Lib

/-- `dist_sink::sink_it_`: no try blocks here, the first sub-sink that throws
ends the loop. -/
def distSinkIt (msg : Record) : List SinkState → Outcome (List SinkState)
  | [] => (none, [])
  | s :: rest =>
      if s.sink.shouldLog msg.level then
        match s.receive (.log msg) with
        | (some thrown, s') => (some thrown, s' :: rest)
        | (none, s') => (distSinkIt msg rest).within fun rest' => s' :: rest'
      else (distSinkIt msg rest).within fun rest' => s :: rest'

structure DupFilterSink where
  /-- In microseconds. -/
  maxSkipDuration : ℤ
  lastMsgTime : ℤ
  lastMsgPayload : Bytes
  skipCounter : ℕ
  sinks : List SinkState
  /-- The messages that `dist_sink::sink_it_` has returned from. -/
  forwarded : List Record

namespace DupFilterSink

/-- `dup_filter_sink(max_skip_duration)` with its sub-sinks. -/
def new (maxSkipDuration : ℤ) (sinks : List SinkState) : DupFilterSink :=
  ⟨maxSkipDuration, 0, [], 0, sinks, []⟩

/-- Within `max_skip_duration` of `time`. -/
def inWindow (d : DupFilterSink) (msg : Record) (time : ℤ) : Bool :=
  msg.time - time ≤ d.maxSkipDuration * 1000

/-- `filter_`: whether the message should be displayed. -/
def filter (d : DupFilterSink) (msg : Record) : Bool :=
  !d.inWindow msg d.lastMsgTime || msg.payload ≠ d.lastMsgPayload

/-- The message about `skip_counter_` skipped ones. -/
def skippedMsg (d : DupFilterSink) (stamp : Logger.Stamp) (msg : Record) : Record :=
  .new stamp.time stamp.threadId {} msg.loggerName .info
    (ascii "Skipped " ++ decimal (d.skipCounter % 2 ^ 32) ++ ascii " duplicate messages..")

/-- Hand a message to the sub-sinks. -/
def distribute (msg : Record) (d : DupFilterSink) : Outcome DupFilterSink :=
  (distSinkIt msg d.sinks).within fun sinks => { d with sinks }

/-- `sink_it_`; `stamp` is the time and thread of the message about skipped
ones. -/
def sinkIt (stamp : Logger.Stamp) (msg : Record) (d : DupFilterSink) : Outcome DupFilterSink :=
  if d.filter msg then
    (if 0 < d.skipCounter then d.distribute (d.skippedMsg stamp msg) else (none, d)).andThen
      fun d₁ =>
        (d₁.distribute msg).andThen fun d₂ =>
          (none, { d₂ with
            lastMsgTime := msg.time
            skipCounter := 0
            lastMsgPayload := msg.payload
            forwarded := d₂.forwarded ++ [msg] })
  else (none, { d with skipCounter := (d.skipCounter + 1) % sizeT })

/-- The call returned without having handed the message to the sub-sinks. -/
def Withheld (stamp : Logger.Stamp) (msg : Record) (d : DupFilterSink) : Prop :=
  (d.sinkIt stamp msg).1 = none ∧ (d.sinkIt stamp msg).2.forwarded = d.forwarded

/-- Two messages with the same payload and parameters; a null pointer and the
null value both mean that there are no parameters. -/
def SameContent (msg other : Record) : Prop :=
  msg.payload = other.payload ∧ msg.params.getD .null = other.params.getD .null

/-- A message is withheld only if it is a duplicate of the last forwarded one,
soon enough after it. -/
def Truthful (d : DupFilterSink) (stamp : Logger.Stamp) (msg : Record) : Prop :=
  d.Withheld stamp msg → ∃ last, d.forwarded.getLast? = some last ∧ SameContent msg last ∧
    d.inWindow msg last.time = true

/-! ## What the filter remembers -/

/-- The time and payload kept are those of the last forwarded message. -/
structure Remembers (d : DupFilterSink) : Prop where
  time : d.lastMsgTime = (d.forwarded.getLast?.map LogMsg.time).getD 0
  payload : d.lastMsgPayload = (d.forwarded.getLast?.map LogMsg.payload).getD []

theorem remembers_new (maxSkipDuration : ℤ) (sinks : List SinkState) :
    Remembers (new maxSkipDuration sinks) := ⟨rfl, rfl⟩

/-- Distributing a message concerns the sub-sinks only. -/
theorem distribute_frame (msg : Record) (d : DupFilterSink) :
    (d.distribute msg).2 = { d with sinks := (d.distribute msg).2.sinks } := rfl

/-- The three ways through `sink_it_`: withheld, forwarded, or left by an
exception of a sub-sink. -/
theorem sinkIt_cases (stamp : Logger.Stamp) (msg : Record) (d : DupFilterSink) :
    (d.filter msg = false ∧
      d.sinkIt stamp msg = (none, { d with skipCounter := (d.skipCounter + 1) % sizeT })) ∨
    (d.filter msg = true ∧ ∃ sinks, d.sinkIt stamp msg = (none, { d with
      sinks
      lastMsgTime := msg.time
      skipCounter := 0
      lastMsgPayload := msg.payload
      forwarded := d.forwarded ++ [msg] })) ∨
    (d.filter msg = true ∧ ∃ thrown sinks,
      d.sinkIt stamp msg = (some thrown, { d with sinks })) := by
  rw [sinkIt]
  cases hfilter : d.filter msg with
  | false => exact .inl ⟨rfl, by simp⟩
  | true =>
      apply Or.inr
      rw [if_pos rfl]
      obtain ⟨notice, hnotice⟩ : ∃ o : Outcome DupFilterSink, o =
          if 0 < d.skipCounter then d.distribute (d.skippedMsg stamp msg) else (none, d) :=
        ⟨_, rfl⟩
      have hframe : notice.2 = { d with sinks := notice.2.sinks } := by
        rw [hnotice]
        split_ifs <;> rfl
      rw [← hnotice]
      rcases notice with ⟨_ | thrown, d₁⟩
      · rcases hsent : d₁.distribute msg with ⟨_ | thrown, d₂⟩
        · have hframe₂ := distribute_frame msg d₁
          rw [hsent] at hframe₂
          dsimp only at hframe hframe₂
          refine .inl ⟨rfl, d₂.sinks, ?_⟩
          simp only [Outcome.andThen, hsent]
          rw [hframe₂, hframe]
        · have hframe₂ := distribute_frame msg d₁
          rw [hsent] at hframe₂
          dsimp only at hframe hframe₂
          refine .inr ⟨rfl, thrown, d₂.sinks, ?_⟩
          simp only [Outcome.andThen, hsent]
          rw [hframe₂, hframe]
      · exact .inr ⟨rfl, thrown, d₁.sinks, by simpa [Outcome.andThen] using hframe⟩

theorem Remembers.sinkIt {d : DupFilterSink} (h : Remembers d) (stamp : Logger.Stamp)
    (msg : Record) : Remembers (d.sinkIt stamp msg).2 := by
  rcases d.sinkIt_cases stamp msg with ⟨_, heq⟩ | ⟨_, sinks, heq⟩ | ⟨_, thrown, sinks, heq⟩
  · rw [heq]
    exact ⟨h.time, h.payload⟩
  · rw [heq]
    constructor <;> simp
  · rw [heq]
    exact ⟨h.time, h.payload⟩

theorem withheld_iff (stamp : Logger.Stamp) (msg : Record) (d : DupFilterSink) :
    d.Withheld stamp msg ↔ d.filter msg = false := by
  rcases d.sinkIt_cases stamp msg with ⟨hf, heq⟩ | ⟨hf, sinks, heq⟩ | ⟨hf, thrown, sinks, heq⟩
  · rw [Withheld, heq]
    exact iff_of_true ⟨rfl, rfl⟩ hf
  · rw [Withheld, heq, hf]
    simp
  · rw [Withheld, heq, hf]
    simp

theorem filter_eq_false (msg : Record) (d : DupFilterSink) :
    d.filter msg = false ↔
      d.inWindow msg d.lastMsgTime = true ∧ msg.payload = d.lastMsgPayload := by
  simp [filter]

/-! ## Which messages are withheld wrongly -/

/-- The message is not one of those the filter is wrong about: a repetition of
the last forwarded payload, soon after it, with other parameters; or, before
anything was forwarded, an empty payload soon after the epoch. -/
def Distinguished (d : DupFilterSink) (msg : Record) : Prop :=
  match d.forwarded.getLast? with
  | some last => msg.payload = last.payload → d.inWindow msg last.time = true →
      msg.params.getD .null = last.params.getD .null
  | none => ¬ (msg.payload = [] ∧ d.inWindow msg 0 = true)

theorem truthful_iff {d : DupFilterSink} (h : Remembers d) (stamp : Logger.Stamp) (msg : Record) :
    d.Truthful stamp msg ↔ d.Distinguished msg := by
  have htime := h.time
  have hpayload := h.payload
  rw [Truthful, withheld_iff, filter_eq_false, Distinguished]
  cases hlast : d.forwarded.getLast? with
  | none =>
      rw [hlast] at htime hpayload
      rw [htime, hpayload]
      simp only [Option.map_none, Option.getD_none, reduceCtorEq, false_and, exists_false]
      rw [and_comm]
  | some last =>
      rw [hlast] at htime hpayload
      rw [htime, hpayload]
      simp only [Option.map_some, Option.getD_some, Option.some.injEq, exists_eq_left']
      constructor
      · intro h hsame hwindow
        exact (h ⟨hwindow, hsame⟩).1.2
      · rintro h ⟨hwindow, hsame⟩
        exact ⟨⟨hsame, h hsame hwindow⟩, hwindow⟩

/-- The calls of `sink_it_` in a run. -/
def steps (d : DupFilterSink) (msgs : List (Logger.Stamp × Record)) :
    List (DupFilterSink × Logger.Stamp × Record) :=
  Runs.trace (fun d m => (d.sinkIt m.1 m.2).2) d msgs

/-- In a run the filter withholds true duplicates only if and only if no message
repeats the payload of the last forwarded one within the skip duration with
other parameters, and none before the first forwarded one is empty and within
the skip duration of the epoch. -/
theorem dup_filter_truthful_iff (maxSkipDuration : ℤ) (sinks : List SinkState)
    (msgs : List (Logger.Stamp × Record)) :
    (∀ p ∈ (new maxSkipDuration sinks).steps msgs, p.1.Truthful p.2.1 p.2.2) ↔
      ∀ p ∈ (new maxSkipDuration sinks).steps msgs, p.1.Distinguished p.2.2 := by
  have hstep (d : DupFilterSink) (m : Logger.Stamp × Record) (h : Remembers d) :
      Remembers (d.sinkIt m.1 m.2).2 := h.sinkIt m.1 m.2
  have hiff (d : DupFilterSink) (m : Logger.Stamp × Record) (h : Remembers d) :
      d.Truthful m.1 m.2 ↔ d.Distinguished m.2 := truthful_iff h m.1 m.2
  exact Runs.forall_trace_congr hstep hiff (remembers_new maxSkipDuration sinks) msgs

/-- A message with one parameter. -/
def withParameter (value : ℤ) : Logger.Stamp × Record :=
  (⟨0, 1⟩, { LogMsg.new 10 1 {} (ascii "logger") .info (ascii "x") with
    params := some (.object [(ascii "a", .integer value)]) })

/-- A record that differs in its parameters is dropped. -/
theorem dup_filter_drops_other_params :
    ¬ ∀ (maxSkipDuration : ℤ) (sinks : List SinkState) (msgs : List (Logger.Stamp × Record)),
      ∀ p ∈ (new maxSkipDuration sinks).steps msgs, p.1.Truthful p.2.1 p.2.2 := by
  intro h
  have hsecond := h 5000000 [] [withParameter 1, withParameter 2] _
    (List.mem_cons_of_mem _ List.mem_cons_self) ⟨rfl, rfl⟩
  obtain ⟨last, hlast, ⟨-, hparams⟩, -⟩ := hsecond
  obtain rfl : (withParameter 1).2 = last := Option.some.inj hlast
  simp [withParameter] at hparams

end DupFilterSink

end Structlog
