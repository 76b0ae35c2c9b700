import Structlog.TimedFileSinks

/-!
# The file of each hour

The hourly sink takes the name of a file from the time of a message, and the rotation point
from the clock, which may be in a later hour already.  Messages between the two hours go to
the file of the first.

`Current` is the invariant: the file is the one for some time, and the rotation point the
one for some reading of the clock.  What is written where is then a matter of these two
(`placed`), and `OwnHour` says when that is the hour of each message.
-/

namespace Structlog

open Lib

/-! ## Names of hours -/

/-- The local hour of a time point. -/
def localHour (offset time : ℤ) : ℤ := (toTimeT time + offset) / 3600

namespace HourlyFilenameCalculator

/-- The name of the file of an hour. -/
def hourFilename (filename : Bytes) (hours : ℤ) : Bytes :=
  calcFilename filename ((Zone.constant 0).localtime (3600 * hours))

theorem hourFilename_eq (filename : Bytes) (hours : ℤ) :
    hourFilename filename hours = (FileHelper.splitByExtension filename).1 ++ ascii "_" ++
      zeroPaddedInt 4 (Calendar.civil (hours / 24)).year ++ ascii "-" ++
      zeroPaddedInt 2 (Calendar.civil (hours / 24)).month ++ ascii "-" ++
      zeroPaddedInt 2 (Calendar.civil (hours / 24)).day ++ ascii "_" ++
      zeroPaddedInt 2 (hours % 24) ++ (FileHelper.splitByExtension filename).2 := by
  have hdays : (3600 * hours + 0) / 86400 = hours / 24 := by omega
  have hhour : (3600 * hours + 0) % 86400 / 3600 = hours % 24 := by omega
  simp only [hourFilename, calcFilename, Zone.constant, hdays, hhour, Int.sub_add_cancel]

/-- The name depends on the local hour alone. -/
theorem calcFilename_localtime (filename : Bytes) (offset time : ℤ) :
    calcFilename filename ((Zone.constant offset).localtime (toTimeT time)) =
      hourFilename filename (localHour offset time) := by
  have hdays : localHour offset time / 24 = (toTimeT time + offset) / 86400 := by
    unfold localHour
    omega
  have hhour : localHour offset time % 24 = (toTimeT time + offset) % 86400 / 3600 := by
    unfold localHour
    omega
  rw [hourFilename_eq, hdays, hhour]
  simp only [calcFilename, Zone.constant, Int.sub_add_cancel]

theorem hourFilename_ne_nil (filename : Bytes) (hours : ℤ) : hourFilename filename hours ≠ [] := by
  rw [hourFilename_eq]
  simp [ascii]

/-- Different hours have different names. -/
theorem hourFilename_injective (filename : Bytes) :
    Function.Injective (hourFilename filename) := by
  intro hours hours' h
  have htwo (n : ℤ) : (zeroPaddedInt 2 (n % 24)).length = 2 :=
    length_zeroPaddedInt (by decide) (by omega) (by omega)
  rw [hourFilename_eq, hourFilename_eq, List.append_cancel_right_eq] at h
  obtain ⟨h, hhour⟩ := List.append_inj' h ((htwo hours).trans (htwo hours').symm)
  rw [List.append_cancel_right_eq] at h
  have hname : DailyFilenameCalculator.dayFilename filename (hours / 24) =
      DailyFilenameCalculator.dayFilename filename (hours' / 24) := by
    rw [DailyFilenameCalculator.dayFilename_eq, DailyFilenameCalculator.dayFilename_eq, h]
  have hday := DailyFilenameCalculator.dayFilename_injective filename hname
  have hofDay := zeroPaddedInt_injective 2 hhour
  omega

end HourlyFilenameCalculator

/-! ## Rotation points -/

namespace HourlyFileSink

open HourlyFilenameCalculator

/-- The rotation point after a reading of the clock: the next full hour. -/
def rotationAfter (offset reading : ℤ) : ℤ :=
  let hour := fromTimeT (3600 * localHour offset reading - offset)
  if reading < hour then hour else hour + hourNanos

theorem nextRotationTp_eq {s : HourlyFileSink} {offset : ℤ} (hzone : s.zone = .constant offset)
    (now : ℤ) : s.nextRotationTp now = rotationAfter offset now := by
  have hhour : (Zone.constant offset).mktime
      { (Zone.constant offset).localtime (toTimeT now) with min := 0, sec := 0 } =
        3600 * localHour offset now - offset := by
    rw [Zone.mktime_setTime offset (toTimeT now) ((Zone.constant offset).localtime _).hour 0 0]
    unfold localHour
    dsimp only [Zone.constant]
    omega
  unfold nextRotationTp rotationAfter
  rw [hzone]
  dsimp only
  rw [hhour]

/-! ## Where messages go -/

/-- What is written of a message into the file of the hour of `fileTime`. -/
def entry (offset : ℤ) (base : Bytes) (fileTime : ℤ) (msg : DailyMessage) :
    List (Bytes × Bytes) :=
  msg.text.toOption.toList.map fun text =>
    (calcFilename base ((Zone.constant offset).localtime (toTimeT fileTime)), text)

/-- Each message in the file of its own hour. -/
def expected (offset : ℤ) (base : Bytes) (calls : List (ℤ × DailyMessage)) :
    List (Bytes × Bytes) :=
  calls.flatMap fun call => entry offset base call.2.time call.2

/-- What the sink writes, from a file for `fileTime` and a reading of the clock on. -/
def placed (offset : ℤ) (base : Bytes) :
    ℤ → ℤ → List (ℤ × DailyMessage) → List (Bytes × Bytes)
  | _, _, [] => []
  | fileTime, reading, (now, msg) :: rest =>
      if rotationAfter offset reading ≤ msg.time then
        entry offset base msg.time msg ++ placed offset base msg.time now rest
      else entry offset base fileTime msg ++ placed offset base fileTime reading rest

/-- Messages before the rotation point that belongs to a reading of the clock are of the hour
of the file that was opened then; at the rotation point the file is the one for the message,
and the reading that of the clock. -/
def OwnHour (offset : ℤ) : ℤ → ℤ → List (ℤ × DailyMessage) → Prop
  | _, _, [] => True
  | fileTime, reading, (now, msg) :: rest =>
      if rotationAfter offset reading ≤ msg.time then OwnHour offset msg.time now rest
      else
        (msg.text.isOk = true → localHour offset msg.time = localHour offset fileTime) ∧
          OwnHour offset fileTime reading rest

theorem entry_eq_iff (offset : ℤ) (base : Bytes) (fileTime : ℤ) (msg : DailyMessage) :
    entry offset base fileTime msg = entry offset base msg.time msg ↔
      (msg.text.isOk = true → localHour offset msg.time = localHour offset fileTime) := by
  unfold entry
  rw [calcFilename_localtime, calcFilename_localtime]
  cases msg.text with
  | error thrown => simp [Except.toOption, Except.isOk, Except.toBool]
  | ok text =>
      have hname := (hourFilename_injective base).eq_iff
        (a := localHour offset fileTime) (b := localHour offset msg.time)
      simp [Except.toOption, Except.isOk, Except.toBool, hname, eq_comm]

theorem length_entry (offset : ℤ) (base : Bytes) (time time' : ℤ) (msg : DailyMessage) :
    (entry offset base time msg).length = (entry offset base time' msg).length := by
  unfold entry
  rw [List.length_map, List.length_map]

/-- Every message is in the file of its own hour exactly if `OwnHour`. -/
theorem placed_eq_iff (offset : ℤ) (base : Bytes) (fileTime reading : ℤ)
    (calls : List (ℤ × DailyMessage)) :
    placed offset base fileTime reading calls = expected offset base calls ↔
      OwnHour offset fileTime reading calls := by
  induction calls generalizing fileTime reading with
  | nil => exact iff_of_true rfl trivial
  | cons call rest ih =>
      obtain ⟨now, msg⟩ := call
      have hexpected : expected offset base ((now, msg) :: rest) =
          entry offset base msg.time msg ++ expected offset base rest := List.flatMap_cons
      rw [placed, OwnHour, hexpected]
      split_ifs
      · rw [List.append_cancel_left_eq, ih]
      · rw [← entry_eq_iff offset base, ← ih]
        constructor
        · intro heq
          exact List.append_inj heq (length_entry offset base fileTime msg.time msg)
        · rintro ⟨hfirst, hrest⟩
          rw [hfirst, hrest]

/-! ## Without delay -/

/-- Before the rotation point there is no later hour than that of the reading. -/
theorem localHour_le_of_lt_rotationAfter {offset reading time : ℤ} (hreading : 0 ≤ reading)
    (htime : time < rotationAfter offset reading) :
    localHour offset time ≤ localHour offset reading := by
  have hdown := Int.mul_tdiv_add_tmod reading nanos
  have hrest := Int.tmod_nonneg nanos hreading
  have hfraction := lt_toTimeT reading
  have hdown' := Int.mul_tdiv_add_tmod time nanos
  -- The hour of the reading has begun, so the rotation point is the end of it.
  have hend : rotationAfter offset reading =
      fromTimeT (3600 * localHour offset reading - offset) + hourNanos := by
    refine if_neg ?_
    unfold localHour fromTimeT toTimeT nanos at *
    omega
  rw [hend] at htime
  have hafter : toTimeT reading < 3600 * localHour offset reading - offset + 3600 := by
    unfold localHour
    omega
  have hsecond : toTimeT time < 3600 * localHour offset reading - offset + 3600 := by
    rcases le_total 0 time with hpos | hneg
    · have hrest' := Int.tmod_nonneg nanos hpos
      unfold fromTimeT hourNanos toTimeT nanos at *
      omega
    · have hbefore := (toTimeT_mono hneg).trans (toTimeT_mono hreading)
      exact hbefore.trans_lt hafter
  unfold localHour at hsecond ⊢
  omega

theorem localHour_mono (offset : ℤ) {time time' : ℤ} (h : time ≤ time') :
    localHour offset time ≤ localHour offset time' := by
  have hseconds := toTimeT_mono h
  unfold localHour
  omega

/-- If no hour begins between a message and the reading that follows it, nor between the
first two readings, then messages in the order of their times are in their own hours. -/
theorem ownHour_of_prompt {offset fileTime reading : ℤ} {calls : List (ℤ × DailyMessage)}
    (hreading : 0 ≤ reading) (hhour : localHour offset reading = localHour offset fileTime)
    (hafter : ∀ call ∈ calls, fileTime ≤ call.2.time)
    (hsorted : calls.Pairwise fun call call' => call.2.time ≤ call'.2.time)
    (hprompt : ∀ call ∈ calls,
      0 ≤ call.1 ∧ localHour offset call.1 = localHour offset call.2.time) :
    OwnHour offset fileTime reading calls := by
  induction calls generalizing fileTime reading with
  | nil => trivial
  | cons call rest ih =>
      obtain ⟨now, msg⟩ := call
      obtain ⟨hfirst, hrest⟩ := List.pairwise_cons.mp hsorted
      obtain ⟨hnow, hsame⟩ := hprompt _ List.mem_cons_self
      have hprompt' call (hmem : call ∈ rest) := hprompt call (List.mem_cons_of_mem _ hmem)
      rw [OwnHour]
      split_ifs with hrotate
      · exact ih hnow hsame hfirst hrest hprompt'
      · have hnotBefore := localHour_mono offset (hafter _ List.mem_cons_self)
        have hnotAfter := localHour_le_of_lt_rotationAfter hreading (not_le.mp hrotate)
        refine ⟨fun _ => le_antisymm (hhour ▸ hnotAfter) hnotBefore, ?_⟩
        exact ih hreading hhour (fun call hmem => hafter call (List.mem_cons_of_mem _ hmem))
          hrest hprompt'

/-! ## The invariant -/

/-- The sink as it was made, on a system that does not fail. -/
structure Configured (offset : ℤ) (base : Bytes) (s : HourlyFileSink) : Prop where
  fileNameCalc : s.fileNameCalc = calcFilename
  zone : s.zone = .constant offset
  baseFilename : s.baseFilename = base
  quiet : s.os.Quiet
  nullStream : s.fileHelper.nullStream = false

/-- The open file is the one for `fileTime`, and the rotation point the one for `reading`. -/
structure Current (offset : ℤ) (base : Bytes) (fileTime reading : ℤ) (s : HourlyFileSink) : Prop
    extends Configured offset base s where
  stream : s.fileHelper.fd ≠ none
  filename : s.fileHelper.filename =
    calcFilename base ((Zone.constant offset).localtime (toTimeT fileTime))
  rotationTp : s.rotationTp = rotationAfter offset reading

variable {offset : ℤ} {base : Bytes} {fileTime reading : ℤ} {s : HourlyFileSink}

theorem Configured.filenameAt (h : Configured offset base s) (time : ℤ) :
    s.filenameAt time = calcFilename base ((Zone.constant offset).localtime (toTimeT time)) := by
  rw [HourlyFileSink.filenameAt, h.fileNameCalc, h.zone, h.baseFilename]

/-- A rotation takes the name from one time and the rotation point from the other. -/
theorem Configured.openFor (h : Configured offset base s) (time now : ℤ) :
    (s.openFor time now).1 = none ∧ Current offset base time now (s.openFor time now).2 ∧
      (s.openFor time now).2.written = s.written := by
  have hname : s.filenameAt time ≠ [] := by
    rw [h.filenameAt, calcFilename_localtime]
    exact hourFilename_ne_nil base _
  obtain ⟨hok, hready, hfilename, -⟩ :=
    FileHelper.openFile_quiet h.quiet h.nullStream hname s.truncate
  have hopened : (s.onFile fun file => file.openFile (s.filenameAt time) s.truncate).1 = none := hok
  rw [HourlyFileSink.openFor, Outcome.andThen_returned hopened]
  obtain ⟨fp, hstream, -⟩ := hready.stream
  refine ⟨rfl, ?_, rfl⟩
  constructor
  case toConfigured =>
    exact ⟨h.fileNameCalc, h.zone, h.baseFilename, hready.quiet, hready.nullStream⟩
  case stream => exact fun hnone => Option.some_ne_none fp (hstream.symm.trans hnone)
  case filename => exact hfilename.trans (h.filenameAt time)
  case rotationTp => exact nextRotationTp_eq h.zone now

theorem Current.write (h : Current offset base fileTime reading s) (text : Bytes) :
    (s.write text).1 = none ∧ Current offset base fileTime reading (s.write text).2 ∧
      (s.write text).2.written = s.written ++
        [(calcFilename base ((Zone.constant offset).localtime (toTimeT fileTime)), text)] := by
  obtain ⟨fp, hfd⟩ := Option.ne_none_iff_exists'.mp h.stream
  have hfile : s.fileHelper.write text = (none, { s.fileHelper with
      fd := some fp
      os := { s.os.next with fs := s.os.fs.append fp text } }) := by
    rw [FileHelper.write, hfd]
    dsimp only
    rw [Os.fwrite, h.quiet 0]
    exact Prod.ext (if_pos rfl) rfl
  rw [HourlyFileSink.write, onFile, hfile]
  refine ⟨rfl, ?_, by rw [← h.filename]; rfl⟩
  constructor
  case toConfigured =>
    exact ⟨h.fileNameCalc, h.zone, h.baseFilename, Os.quiet_next h.quiet, h.nullStream⟩
  case stream => exact Option.some_ne_none fp
  case filename => exact h.filename
  case rotationTp => exact h.rotationTp

/-- Removing the oldest file leaves the open one as it is. -/
theorem Current.deleteOld (h : Current offset base fileTime reading s) :
    Current offset base fileTime reading s.deleteOld.2 ∧ s.deleteOld.2.written = s.written := by
  have hquiet : (s.os.removeIfExists s.filenamesQ.front).2.Quiet :=
    (Os.removeIfExists_quiet h.quiet _).2.1
  have hconfig := h.toConfigured
  unfold HourlyFileSink.deleteOld
  dsimp only
  split_ifs
  · exact ⟨{ h with quiet := hquiet }, rfl⟩
  · exact ⟨{ h with quiet := hquiet }, rfl⟩
  · exact ⟨{ h with quiet := h.quiet }, rfl⟩

/-- What `sink_it_` does once the file is open. -/
theorem Current.formatAndWrite (h : Current offset base fileTime reading s) (s₀ : HourlyFileSink)
    (now : ℤ) (msg : DailyMessage) :
    Current offset base fileTime reading (timedSink.formatAndWrite s₀ (now, msg) s).2 ∧
      (timedSink.formatAndWrite s₀ (now, msg) s).2.written =
        s.written ++ entry offset base fileTime msg := by
  rcases htext : msg.text with thrown | text
  · have hthrew : timedSink.formatAndWrite s₀ (now, msg) s = (some thrown, s) := by
      simp only [TimedSink.formatAndWrite, timedSink, htext]
    rw [hthrew, entry, htext]
    exact ⟨h, (List.append_nil _).symm⟩
  · obtain ⟨hok, hcurrent, hwritten⟩ := h.write text
    have hclean : timedSink.formatAndWrite s₀ (now, msg) s =
        if s₀.shouldRotate msg ∧ 0 < (s.write text).2.maxFiles then (s.write text).2.deleteOld
        else (none, (s.write text).2) := by
      simp only [TimedSink.formatAndWrite, timedSink, htext]
      exact Outcome.andThen_returned hok _
    rw [hclean, entry, htext]
    split_ifs
    · obtain ⟨hdeleted, hkept⟩ := hcurrent.deleteOld
      exact ⟨hdeleted, hkept.trans hwritten⟩
    · exact ⟨hcurrent, hwritten⟩

/-- A message at the rotation point brings its own file and a new rotation point. -/
theorem Current.step_rotated (h : Current offset base fileTime reading s) (now : ℤ)
    {msg : DailyMessage} (hrotate : rotationAfter offset reading ≤ msg.time) :
    Current offset base msg.time now (s.stepAt (now, msg)) ∧
      (s.stepAt (now, msg)).written = s.written ++ entry offset base msg.time msg := by
  obtain ⟨hok, hcurrent, hwritten⟩ := h.toConfigured.openFor msg.time now
  have hrotates : timedSink.rotates s (now, msg) = true := by
    simpa only [timedSink, shouldRotate, h.rotationTp, decide_eq_true_eq] using hrotate
  have hopened : (timedSink.rotate (now, msg) s).1 = none := hok
  rw [← step_timedSink, TimedSink.step, if_pos hrotates, Outcome.andThen_returned hopened]
  have hstep := hcurrent.formatAndWrite s now msg
  rw [hwritten] at hstep
  exact hstep

/-- Any other message is written into the open file. -/
theorem Current.step_stayed (h : Current offset base fileTime reading s) (now : ℤ)
    {msg : DailyMessage} (hstay : ¬ rotationAfter offset reading ≤ msg.time) :
    Current offset base fileTime reading (s.stepAt (now, msg)) ∧
      (s.stepAt (now, msg)).written = s.written ++ entry offset base fileTime msg := by
  have hrotates : ¬ timedSink.rotates s (now, msg) = true := by
    simpa only [timedSink, shouldRotate, h.rotationTp, decide_eq_true_eq] using hstay
  rw [← step_timedSink, TimedSink.step, if_neg hrotates, Outcome.andThen_returned rfl]
  exact h.formatAndWrite s now msg

/-- Along a run, what is written is what `placed` says. -/
theorem Current.written_run (h : Current offset base fileTime reading s)
    (calls : List (ℤ × DailyMessage)) :
    (Runs.run stepAt s calls).written = s.written ++ placed offset base fileTime reading calls := by
  induction calls generalizing s fileTime reading with
  | nil => exact (List.append_nil _).symm
  | cons call rest ih =>
      obtain ⟨now, msg⟩ := call
      rw [Runs.run, List.foldl_cons, placed]
      split_ifs with hrotate
      · obtain ⟨hnext, hwritten⟩ := h.step_rotated now hrotate
        have hrest := ih hnext
        rw [hwritten, List.append_assoc] at hrest
        exact hrest
      · obtain ⟨hnext, hwritten⟩ := h.step_stayed now hrotate
        have hrest := ih hnext
        rw [hwritten, List.append_assoc] at hrest
        exact hrest

/-- What the constructor does, from a sink with no file on. -/
theorem exists_new (offset : ℤ) (base : Bytes) (truncate : Bool) (maxFiles : UInt16)
    (clock : ℕ → ℤ) {os : Os} (hquiet : os.Quiet) :
    ∃ s, Configured offset base s ∧ s.os = os ∧ s.maxFiles = maxFiles ∧ s.opened = [] ∧
      s.written = [] ∧ new calcFilename (.constant offset) base truncate maxFiles clock os =
        (none, if 0 < (s.openFor (clock 0) (clock 1)).2.maxFiles
          then (s.openFor (clock 0) (clock 1)).2.initFilenamesQ (clock 2)
          else (s.openFor (clock 0) (clock 1)).2) := by
  let blank : HourlyFileSink :=
    { fileNameCalc := calcFilename
      zone := .constant offset
      baseFilename := base
      rotationTp := 0
      fileHelper := .initial os
      truncate
      maxFiles
      filenamesQ := .disabled
      opened := []
      written := [] }
  have hblank : Configured offset base blank := ⟨rfl, rfl, rfl, hquiet, rfl⟩
  obtain ⟨hok, -⟩ := hblank.openFor (clock 0) (clock 1)
  refine ⟨blank, hblank, rfl, rfl, rfl, rfl, ?_⟩
  rw [new]
  exact Outcome.andThen_returned hok _

/-- The constructor opens a file for its first reading of the clock, and takes the rotation
point from the second. -/
theorem current_new (offset : ℤ) (base : Bytes) (truncate : Bool) (maxFiles : UInt16)
    (clock : ℕ → ℤ) {os : Os} (hquiet : os.Quiet) :
    let sink := new calcFilename (.constant offset) base truncate maxFiles clock os
    sink.1 = none ∧ Current offset base (clock 0) (clock 1) sink.2 ∧ sink.2.written = [] := by
  obtain ⟨s, hconfig, -, -, -, hblank, hnew⟩ :=
    exists_new offset base truncate maxFiles clock hquiet
  obtain ⟨-, hcurrent, hwritten⟩ := hconfig.openFor (clock 0) (clock 1)
  rw [hblank] at hwritten
  rw [hnew]
  split_ifs
  · exact ⟨rfl, { hcurrent with }, hwritten⟩
  · exact ⟨rfl, hcurrent, hwritten⟩

end HourlyFileSink

open HourlyFileSink

/-- A run of the hourly sink puts each message into the file of its own hour exactly if no
message before a rotation point is of another hour than the message, or the first reading
of the clock, that the file was opened for. -/
theorem hourly_file_sink_own_hour_iff (offset : ℤ) (base : Bytes) (truncate : Bool)
    (maxFiles : UInt16) (clock : ℕ → ℤ) (os : Os) (hquiet : os.Quiet)
    (calls : List (ℤ × DailyMessage)) :
    let sink := HourlyFileSink.new HourlyFilenameCalculator.calcFilename (.constant offset) base
      truncate maxFiles clock os
    sink.1 = none ∧
      ((Runs.run stepAt sink.2 calls).written = expected offset base calls ↔
        OwnHour offset (clock 0) (clock 1) calls) := by
  obtain ⟨hok, hcurrent, hwritten⟩ := current_new offset base truncate maxFiles clock hquiet
  refine ⟨hok, ?_⟩
  rw [hcurrent.written_run calls, hwritten, List.nil_append]
  exact placed_eq_iff offset base (clock 0) (clock 1) calls

/-- Two messages of different hours, the first of them late in its hour. -/
def twoHours (delay : ℤ) : List (ℤ × DailyMessage) :=
  [(12 * hourNanos - 2 * nanos + delay, ⟨12 * hourNanos - 2 * nanos, .ok (ascii "x")⟩),
    (13 * hourNanos - 2 * nanos, ⟨13 * hourNanos - 2 * nanos, .ok (ascii "y")⟩)]

theorem hourly_file_sink_own_hour_prompt :
    (Runs.run stepAt (HourlyFileSink.new HourlyFilenameCalculator.calcFilename (.constant 0)
      (ascii "h.txt") false 0 (fun _ => 10 * hourNanos) Os.blank).2 (twoHours nanos)).written =
        [(ascii "h_1970-01-01_11.txt", ascii "x"), (ascii "h_1970-01-01_12.txt", ascii "y")] := by
  have hiff := (hourly_file_sink_own_hour_iff 0 (ascii "h.txt") false 0 (fun _ => 10 * hourNanos)
    Os.blank Os.quiet_blank (twoHours nanos)).2
  apply (hiff.mpr (ownHour_of_prompt ?_ ?_ ?_ ?_ ?_)).trans <;> decide

/-- Where the clock has come to the next hour when the file is opened, the messages of that
hour go to the file of the hour before. -/
theorem hourly_file_sink_own_hour_late :
    let clock := fun _ => 10 * hourNanos
    let calls := twoHours (3 * nanos)
    let sink := HourlyFileSink.new HourlyFilenameCalculator.calcFilename (.constant 0)
      (ascii "h.txt") false 0 clock Os.blank
    (calls.Pairwise fun call call' => call.2.time ≤ call'.2.time ∧ call.1 ≤ call'.1) ∧
      (∀ call ∈ calls, clock 0 ≤ call.2.time ∧ call.2.time ≤ call.1) ∧
      sink.1 = none ∧
      (Runs.run stepAt sink.2 calls).written =
        [(ascii "h_1970-01-01_11.txt", ascii "x"), (ascii "h_1970-01-01_11.txt", ascii "y")] ∧
      expected 0 (ascii "h.txt") calls =
        [(ascii "h_1970-01-01_11.txt", ascii "x"), (ascii "h_1970-01-01_12.txt", ascii "y")] := by
  decide

end Structlog
