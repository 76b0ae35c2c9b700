import Structlog.HourlyFileSink

/-!
# A rotation that fails

If a rotation of the daily or the hourly sink cannot open the new file, the old one is
closed and the rotation point stays where it was; the logger catches the exception and
goes on.  A later message that has come to the rotation point tries again.  One that has
not, because it is older than the others, is written through the null `fd_`.

Both sinks handle a message in the same way, as far as the file goes (`Reopens`).  The
last rotation tells whether a file is open, so that `Retries` says of a run, without
looking at the file, that nothing is written through a null `fd_`.
-/

namespace Structlog

open Lib

/-- A sink that opens another file for some messages and writes them into the file it
has: how it does so, and what the parts of it do to the file. -/
structure TimedSink (σ α : Type*) where
  file : σ → FileHelper
  rotates : σ → α → Bool
  rotate : α → σ → Outcome σ
  text : α → Except Thrown Bytes
  write : Bytes → σ → Outcome σ
  /-- What comes after the write, for the state before the message. -/
  clean : σ → α → σ → Outcome σ
  rotate_file : ∀ a s, ((file (rotate a s).2).fd = none ↔ (rotate a s).1 ≠ none) ∧
    (file (rotate a s).2).nullStream = (file s).nullStream
  write_file : ∀ formatted s, file (write formatted s).2 = ((file s).write formatted).2
  clean_file : ∀ s₀ a s, (file (clean s₀ a s).2).fd = (file s).fd ∧
    (file (clean s₀ a s).2).nullStream = (file s).nullStream

/-- If the last rotation before a message has failed, and the message has a text, then it
rotates. -/
def Retries {σ α : Type*} (rotates fails : σ → α → Prop) (formats : α → Prop)
    (steps : List (σ × α)) : Prop :=
  ∀ before p after, steps = before ++ p :: after → Runs.LastFails rotates fails before →
    formats p.2 → rotates p.1 p.2

namespace TimedSink

variable {σ α : Type*} (sink : TimedSink σ α)

/-- `sink_it_` after the rotation, if there is one. -/
def formatAndWrite (s₀ : σ) (a : α) (s : σ) : Outcome σ :=
  match sink.text a with
  | .error thrown => (some thrown, s)
  | .ok formatted => (sink.write formatted s).andThen (sink.clean s₀ a)

/-- `sink_it_`, whether it throws or not. -/
def step (s : σ) (a : α) : σ :=
  ((if sink.rotates s a then sink.rotate a s else (none, s)).andThen
    (sink.formatAndWrite s a)).2

def Rotates (s : σ) (a : α) : Prop := sink.rotates s a = true

def FailsToRotate (s : σ) (a : α) : Prop := (sink.rotate a s).1 ≠ none

def Formats (a : α) : Prop := (sink.text a).isOk = true

/-! ## One message -/

/-- The file after the rotation is used as it is. -/
theorem formatAndWrite_file (s₀ : σ) (a : α) (s : σ) :
    (sink.file (sink.formatAndWrite s₀ a s).2).fd = (sink.file s).fd ∧
      ((sink.file (sink.formatAndWrite s₀ a s).2).nullStream = true ↔
        (sink.file s).nullStream = true ∨ (sink.file s).fd = none ∧ sink.Formats a) := by
  unfold formatAndWrite Formats
  cases sink.text a with
  | error thrown => simp [Except.isOk, Except.toBool]
  | ok formatted =>
      obtain ⟨hfd, hnull⟩ := (sink.file s).write_fd formatted
      rw [← sink.write_file] at hfd hnull
      obtain ⟨hcleanFd, hcleanNull⟩ := sink.clean_file s₀ a (sink.write formatted s).2
      dsimp only
      rw [Outcome.andThen]
      split
      · rw [hcleanFd, hcleanNull, hfd, hnull]
        simp [Except.isOk, Except.toBool]
      · dsimp only
        rw [hfd, hnull]
        simp [Except.isOk, Except.toBool]

/-- A message that rotates finds a file that is open, or gets no further. -/
theorem step_rotated {s : σ} {a : α} (h : sink.Rotates s a) :
    ((sink.file (sink.step s a)).fd = none ↔ sink.FailsToRotate s a) ∧
      (sink.file (sink.step s a)).nullStream = (sink.file s).nullStream := by
  obtain ⟨hfd, hnull⟩ := sink.rotate_file a s
  rw [step, if_pos (show sink.rotates s a = true from h), FailsToRotate]
  cases hopen : (sink.rotate a s).1 with
  | none =>
      obtain ⟨hsame, hwritten⟩ := sink.formatAndWrite_file s a (sink.rotate a s).2
      have hopened : (sink.file (sink.rotate a s).2).fd ≠ none := fun hnone => hfd.mp hnone hopen
      rw [Outcome.andThen_returned hopen, hsame, hfd, hopen]
      refine ⟨Iff.rfl, ?_⟩
      rw [Bool.eq_iff_iff, hwritten, hnull]
      exact or_iff_left fun hclosed => hopened hclosed.1
  | some thrown =>
      rw [Outcome.andThen_threw hopen, hfd, hopen]
      exact ⟨Iff.rfl, hnull⟩

/-- The others are written into the file there is. -/
theorem step_stayed {s : σ} {a : α} (h : ¬ sink.Rotates s a) :
    (sink.file (sink.step s a)).fd = (sink.file s).fd ∧
      ((sink.file (sink.step s a)).nullStream = true ↔
        (sink.file s).nullStream = true ∨ (sink.file s).fd = none ∧ sink.Formats a) := by
  rw [step, if_neg (show ¬ sink.rotates s a = true from h), Outcome.andThen_returned rfl]
  exact sink.formatAndWrite_file s a s

theorem step_nullStream (s : σ) (a : α) :
    (sink.file (sink.step s a)).nullStream = true ↔
      (sink.file s).nullStream = true ∨
        (sink.file s).fd = none ∧ sink.Formats a ∧ ¬ sink.Rotates s a := by
  by_cases h : sink.Rotates s a
  · rw [(sink.step_rotated h).2]
    simp [h]
  · rw [(sink.step_stayed h).2]
    simp [h]

/-! ## A run -/

/-- From an open file on, nothing is written through a null `fd_` exactly if every
message after a failed rotation retries it. -/
theorem nullStream_run_iff {s : σ} (hopen : (sink.file s).fd ≠ none)
    (hfresh : (sink.file s).nullStream = false) (inputs : List α) :
    (sink.file (Runs.run sink.step s inputs)).nullStream = false ↔
      Retries sink.Rotates sink.FailsToRotate sink.Formats
        (Runs.trace sink.step s inputs) := by
  have hclosed (earlier : List α) :
      (sink.file (Runs.run sink.step s earlier)).fd = none ↔
        Runs.LastFails sink.Rotates sink.FailsToRotate (Runs.trace sink.step s earlier) := by
    rw [Runs.flag_run_iff (fun s => (sink.file s).fd = none)
      (fun s a h => (sink.step_rotated h).1) (fun s a h => by rw [(sink.step_stayed h).1])]
    exact or_iff_left fun hstart => hopen hstart.1
  have hlatch := Runs.latch_run_iff (fun s => (sink.file s).nullStream = true)
    sink.step_nullStream s inputs
  rw [hfresh] at hlatch
  rw [Bool.eq_false_iff, ne_eq, hlatch]
  constructor
  · intro hnone before p after heq hlast hformats
    obtain ⟨earlier, rfl, hstate⟩ := Runs.trace_eq_append heq
    by_contra hstays
    have hmem : p ∈ Runs.trace sink.step s inputs := by
      rw [heq]
      exact List.mem_append_right _ List.mem_cons_self
    exact hnone (.inr ⟨p, hmem, hstate ▸ (hclosed earlier).mpr hlast, hformats, hstays⟩)
  · rintro hretries (hstart | ⟨p, hmem, hfd, hformats, hstays⟩)
    · exact Bool.false_ne_true hstart
    · obtain ⟨before, after, heq⟩ := List.append_of_mem hmem
      obtain ⟨earlier, rfl, hstate⟩ := Runs.trace_eq_append heq
      apply hstays
      exact hretries _ p after heq ((hclosed earlier).mp (hstate ▸ hfd)) hformats

end TimedSink

/-- Opening a file in a larger object, and what follows if that succeeds. -/
theorem openFile_within_file {σ : Type*} (file : σ → FileHelper) (whole : FileHelper → σ)
    (next : σ → σ) (hwhole : ∀ h, file (whole h) = h) (hnext : ∀ s, file (next s) = file s)
    (fname : Bytes) (truncate : Bool) (h : FileHelper) :
    let o := ((h.openFile fname truncate).within whole).andThen fun s => (none, next s)
    ((file o.2).fd = none ↔ o.1 ≠ none) ∧ (file o.2).nullStream = h.nullStream := by
  obtain ⟨hfd, hnull⟩ := h.openFile_fd fname truncate
  dsimp only
  cases hopen : (h.openFile fname truncate).1 with
  | none =>
      have hreturned : ((h.openFile fname truncate).within whole).1 = none := hopen
      rw [hopen] at hfd
      rw [Outcome.andThen_returned hreturned, hnext, Outcome.within, hwhole]
      exact ⟨hfd, hnull⟩
  | some thrown =>
      have hthrew : ((h.openFile fname truncate).within whole).1 = some thrown := hopen
      rw [hopen] at hfd
      rw [Outcome.andThen_threw hthrew, Outcome.within, hwhole]
      exact ⟨hfd, hnull⟩

/-! ## The daily sink -/

namespace DailyFileSink

/-- A call of `sink_it_` with the clock at `call.1`, whether it throws or not. -/
def stepAt (s : DailyFileSink) (call : ℤ × DailyMessage) : DailyFileSink :=
  (s.sinkIt call.1 call.2).2

theorem openFor_file (time now : ℤ) (s : DailyFileSink) :
    ((s.openFor time now).2.fileHelper.fd = none ↔ (s.openFor time now).1 ≠ none) ∧
      (s.openFor time now).2.fileHelper.nullStream = s.fileHelper.nullStream :=
  openFile_within_file fileHelper (fun fileHelper => { s with fileHelper })
    (fun s' => { s' with
      rotationTp := s'.nextRotationTp now
      opened := s'.opened ++ [s.filenameAt time] })
    (fun _ => rfl) (fun _ => rfl) (s.filenameAt time) s.truncate s.fileHelper

theorem deleteOld_file (s : DailyFileSink) :
    s.deleteOld.2.fileHelper.fd = s.fileHelper.fd ∧
      s.deleteOld.2.fileHelper.nullStream = s.fileHelper.nullStream := by
  unfold deleteOld
  dsimp only
  split_ifs <;> exact ⟨rfl, rfl⟩

def timedSink : TimedSink DailyFileSink (ℤ × DailyMessage) where
  file := fileHelper
  rotates s call := s.shouldRotate call.2
  rotate call s := s.openFor call.2.time call.1
  text call := call.2.text
  write := write
  clean s call s' := if s.shouldRotate call.2 ∧ 0 < s'.maxFiles then s'.deleteOld else (none, s')
  rotate_file call s := openFor_file call.2.time call.1 s
  write_file formatted s := by
    rw [write, Outcome.andThen]
    split <;> rfl
  clean_file s call s' := by
    split_ifs
    · exact deleteOld_file s'
    · exact ⟨rfl, rfl⟩

theorem step_timedSink : timedSink.step = stepAt := rfl

/-- The constructor has opened a file, if it returns. -/
theorem file_newAt {fileNameCalc : Bytes → Tm → Bytes} {zone : Zone} {base : Bytes}
    {hour minute : ℤ} {truncate : Bool} {maxFiles : UInt16} {clock : ℕ → ℤ} {os : Os}
    (hnew : (newAt fileNameCalc zone base hour minute truncate maxFiles clock os).1 = none) :
    let s := (newAt fileNameCalc zone base hour minute truncate maxFiles clock os).2
    s.fileHelper.fd ≠ none ∧ s.fileHelper.nullStream = false := by
  have hkept (s : DailyFileSink) :
      (if 0 < s.maxFiles then s.initFilenamesQ (clock 2) else s).fileHelper = s.fileHelper := by
    split_ifs <;> rfl
  rw [newAt] at hnew ⊢
  split_ifs at hnew ⊢
  rw [Outcome.andThen] at hnew ⊢
  split at hnew
  · next hopen =>
      obtain ⟨hfd, hnull⟩ := openFor_file (clock 0) (clock 1) _
      dsimp only
      rw [hkept]
      exact ⟨fun hnone => hfd.mp hnone hopen, hnull⟩
  · cases hnew

end DailyFileSink

/-! ## The hourly sink -/

namespace HourlyFileSink

/-- A call of `sink_it_` with the clock at `call.1`, whether it throws or not. -/
def stepAt (s : HourlyFileSink) (call : ℤ × DailyMessage) : HourlyFileSink :=
  (s.sinkIt call.1 call.2).2

theorem openFor_file (time now : ℤ) (s : HourlyFileSink) :
    ((s.openFor time now).2.fileHelper.fd = none ↔ (s.openFor time now).1 ≠ none) ∧
      (s.openFor time now).2.fileHelper.nullStream = s.fileHelper.nullStream :=
  openFile_within_file fileHelper (fun fileHelper => { s with fileHelper })
    (fun s' => { s' with
      rotationTp := s'.nextRotationTp now
      opened := s'.opened ++ [s.filenameAt time] })
    (fun _ => rfl) (fun _ => rfl) (s.filenameAt time) s.truncate s.fileHelper

theorem deleteOld_file (s : HourlyFileSink) :
    s.deleteOld.2.fileHelper.fd = s.fileHelper.fd ∧
      s.deleteOld.2.fileHelper.nullStream = s.fileHelper.nullStream := by
  unfold deleteOld
  dsimp only
  split_ifs <;> exact ⟨rfl, rfl⟩

def timedSink : TimedSink HourlyFileSink (ℤ × DailyMessage) where
  file := fileHelper
  rotates s call := s.shouldRotate call.2
  rotate call s := s.openFor call.2.time call.1
  text call := call.2.text
  write := write
  clean s call s' := if s.shouldRotate call.2 ∧ 0 < s'.maxFiles then s'.deleteOld else (none, s')
  rotate_file call s := openFor_file call.2.time call.1 s
  write_file formatted s := by
    rw [write, Outcome.andThen]
    split <;> rfl
  clean_file s call s' := by
    split_ifs
    · exact deleteOld_file s'
    · exact ⟨rfl, rfl⟩

theorem step_timedSink : timedSink.step = stepAt := rfl

/-- The constructor has opened a file, if it returns. -/
theorem file_new {fileNameCalc : Bytes → Tm → Bytes} {zone : Zone} {base : Bytes}
    {truncate : Bool} {maxFiles : UInt16} {clock : ℕ → ℤ} {os : Os}
    (hnew : (new fileNameCalc zone base truncate maxFiles clock os).1 = none) :
    (new fileNameCalc zone base truncate maxFiles clock os).2.fileHelper.fd ≠ none ∧
      (new fileNameCalc zone base truncate maxFiles clock os).2.fileHelper.nullStream = false := by
  have hkept (s : HourlyFileSink) :
      (if 0 < s.maxFiles then s.initFilenamesQ (clock 2) else s).fileHelper = s.fileHelper := by
    split_ifs <;> rfl
  rw [new, Outcome.andThen] at hnew ⊢
  split at hnew
  · next hopen =>
      obtain ⟨hfd, hnull⟩ := openFor_file (clock 0) (clock 1) _
      dsimp only
      rw [hkept]
      exact ⟨fun hnone => hfd.mp hnone hopen, hnull⟩
  · cases hnew

end HourlyFileSink

/-! ## Both -/

/-- In a run of either sink from its constructor on, nothing is written through a null
`fd_` if and only if no message that can be formatted comes before the rotation point
after a rotation that has failed and before one that succeeds. -/
theorem timed_file_sinks_write_iff (fileNameCalc : Bytes → Tm → Bytes) (zone : Zone)
    (base : Bytes) (hour minute : ℤ) (truncate : Bool) (maxFiles : UInt16) (clock : ℕ → ℤ)
    (os : Os) (calls : List (ℤ × DailyMessage)) :
    let daily := DailyFileSink.newAt fileNameCalc zone base hour minute truncate maxFiles clock os
    let hourly := HourlyFileSink.new fileNameCalc zone base truncate maxFiles clock os
    (daily.1 = none →
      ((Runs.run DailyFileSink.stepAt daily.2 calls).fileHelper.nullStream = false ↔
        Retries (fun s call => s.shouldRotate call.2 = true)
          (fun s call => (s.openFor call.2.time call.1).1 ≠ none)
          (fun call => call.2.text.isOk = true)
          (Runs.trace DailyFileSink.stepAt daily.2 calls))) ∧
    (hourly.1 = none →
      ((Runs.run HourlyFileSink.stepAt hourly.2 calls).fileHelper.nullStream = false ↔
        Retries (fun s call => s.shouldRotate call.2 = true)
          (fun s call => (s.openFor call.2.time call.1).1 ≠ none)
          (fun call => call.2.text.isOk = true)
          (Runs.trace HourlyFileSink.stepAt hourly.2 calls))) := by
  constructor
  · intro hnew
    obtain ⟨hopen, hfresh⟩ := DailyFileSink.file_newAt hnew
    exact DailyFileSink.timedSink.nullStream_run_iff hopen hfresh calls
  · intro hnew
    obtain ⟨hopen, hfresh⟩ := HourlyFileSink.file_new hnew
    exact HourlyFileSink.timedSink.nullStream_run_iff hopen hfresh calls

/-- A run whose messages all rotate retries. -/
theorem retries_of_rotates {σ α : Type*} {rotates fails : σ → α → Prop} {formats : α → Prop}
    {steps : List (σ × α)} (h : ∀ p ∈ steps, rotates p.1 p.2) :
    Retries rotates fails formats steps := by
  rintro before p after rfl - -
  exact h p (List.mem_append_right _ List.mem_cons_self)

/-- A system on which the file can be opened at the start, and then for a while not. -/
def busyOs : Os := { Os.blank with
  faults := fun k => if 1 ≤ k ∧ k ≤ 5 then some ⟨ascii "Too many open files", 0⟩ else none }

/-- A rotation that fails, and one that is tried again. -/
def twoRotations : List (ℤ × DailyMessage) :=
  [(2 * dayNanos, ⟨2 * dayNanos, .ok (ascii "x")⟩),
    (2 * dayNanos, ⟨2 * dayNanos + 1, .ok (ascii "y")⟩)]

theorem timed_file_sinks_write_retried :
    (Runs.run DailyFileSink.stepAt
      (DailyFileSink.newAt DailyFilenameCalculator.calcFilename (.constant 0) (ascii "d.txt") 0 0
        false 0 (fun _ => dayNanos) busyOs).2 twoRotations).fileHelper.nullStream = false ∧
    (Runs.run HourlyFileSink.stepAt
      (HourlyFileSink.new HourlyFilenameCalculator.calcFilename (.constant 0) (ascii "d.txt")
        false 0 (fun _ => dayNanos) busyOs).2 twoRotations).fileHelper.nullStream = false := by
  refine ⟨?_, ?_⟩
  · have hiff := timed_file_sinks_write_iff DailyFilenameCalculator.calcFilename (.constant 0)
      (ascii "d.txt") 0 0 false 0 (fun _ => dayNanos) busyOs twoRotations
    exact (hiff.1 (by decide)).mpr (retries_of_rotates (by decide))
  · have hiff := timed_file_sinks_write_iff HourlyFilenameCalculator.calcFilename (.constant 0)
      (ascii "d.txt") 0 0 false 0 (fun _ => dayNanos) busyOs twoRotations
    exact (hiff.2 (by decide)).mpr (retries_of_rotates (by decide))

/-- A message that is older than the one whose rotation failed is written through the
null `fd_`. -/
theorem timed_file_sinks_write_closed :
    let calls : List (ℤ × DailyMessage) := [(2 * dayNanos, ⟨2 * dayNanos, .ok (ascii "x")⟩),
      (2 * dayNanos, ⟨dayNanos, .ok (ascii "y")⟩)]
    let daily := DailyFileSink.newAt DailyFilenameCalculator.calcFilename (.constant 0)
      (ascii "d.txt") 0 0 false 0 (fun _ => dayNanos) busyOs
    let hourly := HourlyFileSink.new HourlyFilenameCalculator.calcFilename (.constant 0)
      (ascii "d.txt") false 0 (fun _ => dayNanos) busyOs
    daily.1 = none ∧
      (Runs.run DailyFileSink.stepAt daily.2 calls).fileHelper.nullStream = true ∧
      hourly.1 = none ∧
      (Runs.run HourlyFileSink.stepAt hourly.2 calls).fileHelper.nullStream = true := by
  decide

end Structlog
