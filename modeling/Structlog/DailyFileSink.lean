import Mathlib.Data.List.Dedup
import Structlog.CircularQ
import Structlog.FileHelper
import Structlog.LocalTime
import Structlog.Lib.Runs

/-!
# `daily_file_sink`

The sink opens a file when the clock passes its rotation point, and with a limit
on the number of files it keeps their names in a `circular_q` and removes the
oldest.  The name of a file is the date (`calcFilename_localtime`), so that a
rotation later on the day of the last one opens the same file again: it is put
into the queue a second time, and with `truncate` it is emptied.

`Retains` is what the sink is for: the latest files are on disk with all that was
logged into them, and with a limit the others are gone.  `Keeps` is the
invariant: of the names that have been found or opened the queue holds the
latest, each once, and the files of those that have left it are gone.  It is
kept by every step that is `Sound`, which is to say that a rotation to a new
name also puts the name into the queue, that one to the open file does not, and
that none empties a file that has been written into.
-/

namespace Structlog

open Lib

/-! ## The file names -/

namespace DailyFilenameCalculator

/-- `daily_filename_calculator::calc_filename`. -/
def calcFilename (filename : Bytes) (nowTm : Tm) : Bytes :=
  let (basename, ext) := FileHelper.splitByExtension filename
  basename ++ ascii "_" ++ zeroPaddedInt 4 (nowTm.year + 1900) ++ ascii "-" ++
    zeroPaddedInt 2 (nowTm.mon + 1) ++ ascii "-" ++ zeroPaddedInt 2 nowTm.mday ++ ext

/-- The name of the file of a day. -/
def dayFilename (filename : Bytes) (days : ℤ) : Bytes :=
  calcFilename filename ((Zone.constant 0).localtime (86400 * days))

theorem dayFilename_eq (filename : Bytes) (days : ℤ) :
    dayFilename filename days = (FileHelper.splitByExtension filename).1 ++ ascii "_" ++
      zeroPaddedInt 4 (Calendar.civil days).year ++ ascii "-" ++
      zeroPaddedInt 2 (Calendar.civil days).month ++ ascii "-" ++
      zeroPaddedInt 2 (Calendar.civil days).day ++ (FileHelper.splitByExtension filename).2 := by
  have hdays : (86400 * days + 0) / 86400 = days := by omega
  simp only [dayFilename, calcFilename, Zone.constant, hdays, Int.sub_add_cancel]

/-- The name depends on the local day alone. -/
theorem calcFilename_localtime (filename : Bytes) (offset time : ℤ) :
    calcFilename filename ((Zone.constant offset).localtime (toTimeT time)) =
      dayFilename filename (localDay offset time) := by
  rw [dayFilename_eq]
  simp only [calcFilename, Zone.constant, Int.sub_add_cancel]
  rfl

theorem dayFilename_ne_nil (filename : Bytes) (days : ℤ) : dayFilename filename days ≠ [] := by
  rw [dayFilename_eq]
  simp [ascii]

/-- Different days have different names. -/
theorem dayFilename_injective (filename : Bytes) : Function.Injective (dayFilename filename) := by
  intro d d' h
  obtain ⟨hmonth, hmonth', hday, hday'⟩ := Calendar.civil_bounds d
  obtain ⟨hmonth₂, hmonth₂', hday₂, hday₂'⟩ := Calendar.civil_bounds d'
  have htwo {n : ℤ} (hlow : 1 ≤ n) (hhigh : n ≤ 31) : (zeroPaddedInt 2 n).length = 2 :=
    length_zeroPaddedInt (by decide) (by omega) (by omega)
  rw [dayFilename_eq, dayFilename_eq] at h
  simp only [List.append_assoc, List.append_cancel_left_eq] at h
  simp only [← List.append_assoc, List.append_cancel_right_eq] at h
  -- Day and month have two digits, so the parts can be told apart from the end.
  obtain ⟨h, hd⟩ := List.append_inj' h ((htwo hday hday').trans (htwo hday₂ hday₂').symm)
  rw [List.append_cancel_right_eq] at h
  obtain ⟨h, hm⟩ := List.append_inj' h
    ((htwo hmonth (by omega)).trans (htwo hmonth₂ (by omega)).symm)
  rw [List.append_cancel_right_eq] at h
  apply Calendar.civil_injective
  rw [Calendar.Date.mk.injEq]
  exact ⟨zeroPaddedInt_injective 4 h, zeroPaddedInt_injective 2 hm, zeroPaddedInt_injective 2 hd⟩

end DailyFilenameCalculator

/-! ## The sink -/

/-- A message: its time, and what `formatter_->format` makes of it or throws. -/
structure DailyMessage where
  time : ℤ
  text : Except Thrown Bytes

structure DailyFileSink where
  /-- `FileNameCalc::calc_filename`. -/
  fileNameCalc : Bytes → Tm → Bytes
  zone : Zone
  baseFilename : Bytes
  rotationH : ℤ
  rotationM : ℤ
  rotationTp : ℤ
  fileHelper : FileHelper
  truncate : Bool
  maxFiles : UInt16
  filenamesQ : CircularQ Bytes
  /-- The names of the files that have been opened, in order. -/
  opened : List Bytes
  /-- What has been written, and the name of the file it was written into. -/
  written : List (Bytes × Bytes)

namespace DailyFileSink

abbrev os (s : DailyFileSink) : Os := s.fileHelper.os

def setOs (s : DailyFileSink) (os : Os) : DailyFileSink :=
  { s with fileHelper := { s.fileHelper with os } }

def onFile (act : FileHelper → Outcome FileHelper) (s : DailyFileSink) : Outcome DailyFileSink :=
  (act s.fileHelper).within fun fileHelper => { s with fileHelper }

/-- `FileNameCalc::calc_filename(base_filename_, now_tm(time))`. -/
def filenameAt (s : DailyFileSink) (time : ℤ) : Bytes :=
  s.fileNameCalc s.baseFilename (s.zone.localtime (toTimeT time))

/-- `next_rotation_tp_`, when the clock says `now`. -/
def nextRotationTp (now : ℤ) (s : DailyFileSink) : ℤ :=
  let date := s.zone.localtime (toTimeT now)
  let date := { date with hour := s.rotationH, min := s.rotationM, sec := 0 }
  let rotationTime := fromTimeT (s.zone.mktime date)
  if now < rotationTime then rotationTime else rotationTime + dayNanos

/-- Open the file for `time` and set the rotation point. -/
def openFor (time now : ℤ) (s : DailyFileSink) : Outcome DailyFileSink :=
  let filename := s.filenameAt time
  (s.onFile fun file => file.openFile filename s.truncate).andThen fun s =>
    (none, { s with rotationTp := s.nextRotationTp now, opened := s.opened ++ [filename] })

/-- The loop in `init_filenames_q_`, with room for `n` more names. -/
def initFilenames (s : DailyFileSink) : ℕ → ℤ → List Bytes
  | 0, _ => []
  | n + 1, now =>
      let filename := s.filenameAt now
      if s.os.pathExists filename then filename :: initFilenames s n (now - dayNanos) else []

/-- `init_filenames_q_`. -/
def initFilenamesQ (now : ℤ) (s : DailyFileSink) : DailyFileSink :=
  let filenames := s.initFilenames s.maxFiles.toNat now
  { s with filenamesQ := filenames.reverse.foldl .pushBack (.new s.maxFiles.toNat) }

/-- The constructor.  Its readings of the clock are `clock 0` for the name of the
file, `clock 1` for the rotation point and `clock 2` for the files that are there.
Where it throws there is no sink. -/
def newAt (fileNameCalc : Bytes → Tm → Bytes) (zone : Zone) (baseFilename : Bytes)
    (rotationHour rotationMinute : ℤ) (truncate : Bool) (maxFiles : UInt16) (clock : ℕ → ℤ)
    (os : Os) : Outcome DailyFileSink :=
  let s : DailyFileSink :=
    { fileNameCalc
      zone
      baseFilename
      rotationH := rotationHour
      rotationM := rotationMinute
      rotationTp := 0
      fileHelper := .initial os
      truncate
      maxFiles
      filenamesQ := .disabled
      opened := []
      written := [] }
  if rotationHour < 0 ∨ rotationHour > 23 ∨ rotationMinute < 0 ∨ rotationMinute > 59 then
    (some (spdlogEx (ascii "daily_file_sink: Invalid rotation time in ctor")), s)
  else
    (s.openFor (clock 0) (clock 1)).andThen fun s =>
      (none, if 0 < s.maxFiles then s.initFilenamesQ (clock 2) else s)

/-- The constructor, when the clock says `now` throughout. -/
def new (fileNameCalc : Bytes → Tm → Bytes) (zone : Zone) (baseFilename : Bytes)
    (rotationHour rotationMinute : ℤ) (truncate : Bool) (maxFiles : UInt16) (now : ℤ) (os : Os) :
    Outcome DailyFileSink :=
  newAt fileNameCalc zone baseFilename rotationHour rotationMinute truncate maxFiles
    (fun _ => now) os

/-- `delete_old_`. -/
def deleteOld (s : DailyFileSink) : Outcome DailyFileSink :=
  let currentFile := s.fileHelper.filename
  if s.filenamesQ.full then
    let oldFilename := s.filenamesQ.front
    let (ok, os) := s.os.removeIfExists oldFilename
    let s := { s.setOs os with filenamesQ := s.filenamesQ.popFront.pushBack currentFile }
    -- The name of the current file is kept also when the old file could not be removed.
    if ok then (none, s)
    else (some (os.spdlogEx (ascii "Failed removing daily file " ++ oldFilename)), s)
  else (none, { s with filenamesQ := s.filenamesQ.pushBack currentFile })

/-- `file_helper_.write(formatted)`. -/
def write (formatted : Bytes) (s : DailyFileSink) : Outcome DailyFileSink :=
  (s.onFile fun file => file.write formatted).andThen fun s =>
    (none, { s with written := s.written ++ [(s.fileHelper.filename, formatted)] })

def shouldRotate (s : DailyFileSink) (msg : DailyMessage) : Bool := s.rotationTp ≤ msg.time

/-- `sink_it_`, when the clock says `now`. -/
def sinkIt (now : ℤ) (msg : DailyMessage) (s : DailyFileSink) : Outcome DailyFileSink :=
  (if s.shouldRotate msg then s.openFor msg.time now else (none, s)).andThen fun s' =>
    match msg.text with
    | .error thrown => (some thrown, s')
    | .ok formatted =>
        (s'.write formatted).andThen fun s' =>
          if s.shouldRotate msg ∧ 0 < s'.maxFiles then s'.deleteOld else (none, s')

/-- A call of `sink_it_` with the clock at the time of the message, whether it
throws or not. -/
def step (s : DailyFileSink) (msg : DailyMessage) : DailyFileSink := (s.sinkIt msg.time msg).2

/-! ## What the sink is for -/

/-- The latest `max_files` distinct files opened; all of them without a limit. -/
def recent (s : DailyFileSink) : List Bytes :=
  if s.maxFiles = 0 then s.opened
  else s.opened.dedup.drop (s.opened.dedup.length - s.maxFiles.toNat)

/-- What has been written into a file. -/
def writtenTo (s : DailyFileSink) (filename : Bytes) : List Bytes :=
  (s.written.filter fun entry => entry.1 = filename).map Prod.snd

/-- A file is there, and ends with what has been written into it. -/
def OnDisk (s : DailyFileSink) (filename : Bytes) : Prop :=
  ∃ content, s.os.content filename = some content ∧ (s.writtenTo filename).flatten <:+ content

/-- The latest files are on disk with what was written into them, and with a
limit the other files opened are not. -/
structure Retains (s : DailyFileSink) : Prop where
  kept : ∀ filename ∈ s.recent, s.OnDisk filename
  removed : s.maxFiles ≠ 0 → ∀ filename ∈ s.opened, filename ∉ s.recent →
    s.os.content filename = none
  current : s.OnDisk s.fileHelper.filename

/-- A step that keeps this.  With a limit, the message that makes a rotation must
have a text if the rotation comes to a new file, whose name is then put into the
queue, and none if it comes to the open file, whose name is there already.  With
`truncate`, a rotation may come to the open file only if nothing has been written
there. -/
def Sound (s : DailyFileSink) (msg : DailyMessage) : Prop :=
  s.shouldRotate msg →
    (s.maxFiles ≠ 0 → (msg.text.isOk ↔ s.filenameAt msg.time ≠ s.fileHelper.filename)) ∧
    (s.truncate → s.filenameAt msg.time = s.fileHelper.filename →
      s.writtenTo s.fileHelper.filename = [])

instance (s : DailyFileSink) (msg : DailyMessage) : Decidable (s.Sound msg) :=
  inferInstanceAs (Decidable (_ → _))

/-- A start after which this is so: the constructor must not find the file it has
just opened again when it looks for that of the day before. -/
def SoundStart (offset : ℤ) (maxFiles : UInt16) (now : ℤ) : Prop :=
  1 < maxFiles → localDay offset (now - dayNanos) ≠ localDay offset now

instance (offset : ℤ) (maxFiles : UInt16) (now : ℤ) : Decidable (SoundStart offset maxFiles now) :=
  inferInstanceAs (Decidable (_ → _))

/-- From the second day after the epoch on every start is sound. -/
theorem soundStart_of_le (offset : ℤ) (maxFiles : UInt16) {now : ℤ} (h : dayNanos ≤ now) :
    SoundStart offset maxFiles now := by
  intro _
  rw [localDay_sub_dayNanos offset h]
  omega

/-! ## The rotation point -/

/-- The next rotation is still to come. -/
theorem lt_nextRotationTp {s : DailyFileSink} {offset : ℤ} (hzone : s.zone = .constant offset)
    (hhour : 0 ≤ s.rotationH) (hminute : 0 ≤ s.rotationM) (now : ℤ) :
    now < s.nextRotationTp now := by
  have hfraction := lt_toTimeT now
  unfold nextRotationTp
  rw [hzone]
  dsimp only
  rw [Zone.mktime_setTime]
  split_ifs with hlater
  · exact hlater
  · -- At the rotation time of the next day today is over.
    unfold fromTimeT dayNanos nanos at *
    omega

/-! ## Steps on a system that does not fail -/

theorem openFor_quiet {s : DailyFileSink} (hquiet : s.os.Quiet)
    (hnull : s.fileHelper.nullStream = false) {time : ℤ} (hname : s.filenameAt time ≠ [])
    (now : ℤ) :
    ∃ file, s.openFor time now = (none, { s with
        fileHelper := file
        rotationTp := s.nextRotationTp now
        opened := s.opened ++ [s.filenameAt time] }) ∧
      file.Ready ∧ file.filename = s.filenameAt time ∧
      file.os.content = Function.update s.os.content (s.filenameAt time)
        (some (FileHelper.openedContent s.truncate (s.os.content (s.filenameAt time)))) := by
  obtain ⟨hok, hready, hfilename, hcontent⟩ :=
    FileHelper.openFile_quiet hquiet hnull hname s.truncate
  refine ⟨_, ?_, hready, hfilename, hcontent⟩
  have hopened : (s.onFile fun file => file.openFile (s.filenameAt time) s.truncate).1 = none := hok
  rw [openFor, Outcome.andThen_returned hopened]
  rfl

theorem write_ready {s : DailyFileSink} (hready : s.fileHelper.Ready) (formatted : Bytes) :
    ∃ file, s.write formatted = (none, { s with
        fileHelper := file
        written := s.written ++ [(s.fileHelper.filename, formatted)] }) ∧
      file.Ready ∧ file.filename = s.fileHelper.filename ∧
      file.os.content = Function.update s.os.content s.fileHelper.filename
        ((s.os.content s.fileHelper.filename).map (· ++ formatted)) := by
  obtain ⟨hok, hready', hfilename, hcontent⟩ := FileHelper.write_ready hready formatted
  refine ⟨_, ?_, hready', hfilename, hcontent⟩
  have hwritten : (s.onFile fun file => file.write formatted).1 = none := hok
  rw [write, Outcome.andThen_returned hwritten]
  dsimp only [onFile, Outcome.within]
  rw [hfilename]

/-! ## The invariant -/

/-- The queue holds the latest of the names that were found at the start
(`before`) or opened; `pending` are those about to be put in. -/
structure Window (before gone pending : List Bytes) (s : DailyFileSink) : Prop where
  wellFormed : s.filenamesQ.WellFormed
  maxItems : s.filenamesQ.maxItems = s.maxFiles.toNat + 1
  names : gone ++ s.filenamesQ.toList ++ pending = before ++ s.opened.dedup
  full : gone ≠ [] → s.filenamesQ.toList.length = s.maxFiles.toNat
  before_new : ∀ f ∈ before, f ∉ s.opened
  pending_new : ∀ f ∈ pending, f ∉ gone ++ s.filenamesQ.toList

/-- The files that have been opened are on disk but for those in `gone`. -/
structure Keeps (offset : ℤ) (before gone pending : List Bytes) (s : DailyFileSink) : Prop where
  fileNameCalc : s.fileNameCalc = DailyFilenameCalculator.calcFilename
  zone : s.zone = .constant offset
  rotationH : 0 ≤ s.rotationH
  rotationM : 0 ≤ s.rotationM
  ready : s.fileHelper.Ready
  current : ∃ earlier, s.opened = earlier ++ [s.fileHelper.filename]
  current_there : s.fileHelper.filename ∉ gone
  dated : ∃ last, last < s.rotationTp ∧
    s.fileHelper.filename =
      DailyFilenameCalculator.dayFilename s.baseFilename (localDay offset last) ∧
    ∀ f ∈ before ++ s.opened, ∃ d ≤ localDay offset last,
      f = DailyFilenameCalculator.dayFilename s.baseFilename d
  written : ∀ entry ∈ s.written, entry.1 ∈ s.opened
  onDisk : ∀ f ∈ s.opened, f ∉ gone → s.OnDisk f
  removed : ∀ f ∈ gone, s.os.content f = none
  gone_sub : ∀ f ∈ gone, f ∈ before ++ s.opened
  unlimited : s.maxFiles = 0 → gone = []
  window : s.maxFiles ≠ 0 → Window before gone pending s

variable {offset : ℤ} {before gone pending : List Bytes} {s : DailyFileSink}

theorem Keeps.current_mem (h : Keeps offset before gone pending s) :
    s.fileHelper.filename ∈ s.opened := by
  obtain ⟨earlier, hopened⟩ := h.current
  rw [hopened]
  exact List.mem_append_right _ (List.mem_singleton_self _)

/-- The invariant says what the sink is for. -/
theorem Keeps.retains (h : Keeps offset before gone [] s) : s.Retains := by
  by_cases hmax : s.maxFiles = 0
  · constructor
    case kept =>
      intro f hf
      rw [recent, if_pos hmax] at hf
      exact h.onDisk f hf (by simp [h.unlimited hmax])
    case removed =>
      intro hne
      exact absurd hmax hne
    case current => exact h.onDisk _ h.current_mem h.current_there
  · have hwindow := h.window hmax
    have hrecent : s.recent =
        s.opened.dedup.drop (s.opened.dedup.length - s.maxFiles.toNat) := by
      rw [recent, if_neg hmax]
    have hle := hwindow.wellFormed.length_le
    rw [hwindow.maxItems, Nat.add_sub_cancel] at hle
    have hnames := hwindow.names
    rw [List.append_nil] at hnames
    have hmem {f : Bytes} (hf : f ∈ s.opened) : f ∈ s.recent ↔ f ∉ gone := by
      rw [hrecent]
      exact BoundedFifo.mem_window hnames hle hwindow.full (List.nodup_dedup _)
        (fun g hg => mt List.mem_dedup.mp (hwindow.before_new g hg)) (List.mem_dedup.mpr hf)
    constructor
    case kept =>
      intro f hf
      have hopened : f ∈ s.opened := List.mem_dedup.mp (List.mem_of_mem_drop (hrecent ▸ hf))
      exact h.onDisk f hopened ((hmem hopened).mp hf)
    case removed =>
      intro _ f hf hnot
      exact h.removed f (not_not.mp (mt (hmem hf).mpr hnot))
    case current => exact h.onDisk _ h.current_mem h.current_there

/-- From the rotation point on, a file has the name of the open one or a name
that has not been seen. -/
theorem Keeps.filenameAt_fresh (h : Keeps offset before gone pending s) {time : ℤ}
    (hrotate : s.rotationTp ≤ time) :
    s.filenameAt time = DailyFilenameCalculator.dayFilename s.baseFilename (localDay offset time) ∧
    (s.filenameAt time ≠ s.fileHelper.filename → s.filenameAt time ∉ before ++ s.opened) := by
  obtain ⟨last, hlast, hcurrent, hdays⟩ := h.dated
  have hname : s.filenameAt time =
      DailyFilenameCalculator.dayFilename s.baseFilename (localDay offset time) := by
    rw [filenameAt, h.fileNameCalc, h.zone]
    exact DailyFilenameCalculator.calcFilename_localtime ..
  refine ⟨hname, ?_⟩
  intro hne hseen
  obtain ⟨d, hd, hsame⟩ := hdays _ hseen
  have hday : localDay offset time = d :=
    DailyFilenameCalculator.dayFilename_injective _ (hname.symm.trans hsame)
  have hmono : localDay offset last ≤ localDay offset time := localDay_mono offset (by omega)
  exact hne (by rw [hname, hcurrent, show localDay offset time = localDay offset last by omega])

theorem Keeps.writtenTo_of_new (h : Keeps offset before gone pending s) {f : Bytes}
    (hnew : f ∉ s.opened) : s.writtenTo f = [] := by
  rw [writtenTo, List.filter_eq_nil_iff.mpr, List.map_nil]
  intro entry hentry hname
  rw [decide_eq_true_eq] at hname
  exact hnew (hname ▸ h.written entry hentry)

/-- What a rotation finds or leaves in its file ends with what has been written
there. -/
theorem Keeps.writtenTo_suffix (h : Keeps offset before gone pending s) {time : ℤ}
    (hrotate : s.rotationTp ≤ time)
    (hempty : s.truncate → s.filenameAt time = s.fileHelper.filename →
      s.writtenTo s.fileHelper.filename = []) :
    (s.writtenTo (s.filenameAt time)).flatten <:+
      FileHelper.openedContent s.truncate (s.os.content (s.filenameAt time)) := by
  by_cases hcurrent : s.filenameAt time = s.fileHelper.filename
  -- The rotation comes to the open file.
  · obtain ⟨content, hthere, hsuffix⟩ := h.onDisk _ h.current_mem h.current_there
    cases htruncate : s.truncate with
    | true =>
        rw [hcurrent, hempty htruncate hcurrent]
        exact List.nil_suffix
    | false =>
        rw [hcurrent, hthere]
        exact hsuffix
  · have hnew := (h.filenameAt_fresh hrotate).2 hcurrent
    rw [h.writtenTo_of_new fun hmem => hnew (List.mem_append_right _ hmem)]
    exact List.nil_suffix

/-- Without a limit there is no queue. -/
theorem Keeps.setPending (h : Keeps offset before gone pending s) (hmax : s.maxFiles = 0)
    (pending' : List Bytes) : Keeps offset before gone pending' s :=
  { h with window := fun hne => absurd hmax hne }

/-- A file with a name that has not been seen is opened, and is to be put in. -/
theorem Window.opened (h : Window before gone [] s) {f : Bytes} (hnew : f ∉ before ++ s.opened)
    {s' : DailyFileSink} (hqueue : s'.filenamesQ = s.filenamesQ)
    (hmax : s'.maxFiles = s.maxFiles) (hopened : s'.opened = s.opened ++ [f]) :
    Window before gone [f] s' := by
  have hnames := h.names
  rw [List.append_nil] at hnames
  have hdedup : s'.opened.dedup = s.opened.dedup ++ [f] := by
    have hdisjoint : List.Disjoint s.opened [f] := by
      intro g hg hgf
      exact hnew (List.mem_append_right _ (List.mem_singleton.mp hgf ▸ hg))
    rw [hopened, hdisjoint.dedup_append, (List.nodup_singleton f).dedup]
  constructor
  case wellFormed => exact hqueue ▸ h.wellFormed
  case maxItems =>
    rw [hqueue, hmax]
    exact h.maxItems
  case names => rw [hqueue, hdedup, hnames, List.append_assoc]
  case full =>
    rw [hqueue, hmax]
    exact h.full
  case before_new =>
    intro g hg hmem
    rw [hopened] at hmem
    rcases List.mem_append.mp hmem with hmem | hmem
    · exact h.before_new g hg hmem
    · rw [List.mem_singleton] at hmem
      exact hnew (List.mem_append_left _ (hmem ▸ hg))
  case pending_new =>
    intro g hg
    rw [List.mem_singleton] at hg
    rw [hqueue, hg, hnames]
    intro hmem
    rcases List.mem_append.mp hmem with hmem | hmem
    · exact hnew (List.mem_append_left _ hmem)
    · exact hnew (List.mem_append_right _ (List.mem_dedup.mp hmem))

/-- The file that was opened last is opened again.  Its name stays where it is. -/
theorem Window.reopened (h : Window before gone [] s) {earlier : List Bytes} {f : Bytes}
    (hlast : s.opened = earlier ++ [f]) {s' : DailyFileSink}
    (hqueue : s'.filenamesQ = s.filenamesQ) (hmax : s'.maxFiles = s.maxFiles)
    (hopened : s'.opened = s.opened ++ [f]) : Window before gone [] s' := by
  have hdedup : s'.opened.dedup = s.opened.dedup := by
    rw [hopened, hlast, List.append_assoc]
    change (earlier ++ [f, f]).dedup = _
    rw [List.dedup_append, List.dedup_cons_of_mem (List.mem_singleton_self f),
      ← List.dedup_append]
  constructor
  case wellFormed => exact hqueue ▸ h.wellFormed
  case maxItems =>
    rw [hqueue, hmax]
    exact h.maxItems
  case names => rw [hqueue, hdedup, h.names]
  case full =>
    rw [hqueue, hmax]
    exact h.full
  case before_new =>
    intro g hg hmem
    rw [← List.mem_dedup, hdedup, List.mem_dedup] at hmem
    exact h.before_new g hg hmem
  case pending_new =>
    intro g hg
    exact absurd hg List.not_mem_nil

/-- A rotation, with its file not yet in the queue unless it was the open one. -/
theorem Keeps.openFor (h : Keeps offset before gone [] s) {time : ℤ}
    (hrotate : s.rotationTp ≤ time)
    (hempty : s.truncate → s.filenameAt time = s.fileHelper.filename →
      s.writtenTo s.fileHelper.filename = []) :
    ∃ s', s.openFor time time = (none, s') ∧ s'.maxFiles = s.maxFiles ∧
      s'.fileHelper.filename = s.filenameAt time ∧
      Keeps offset before gone
        (if s.filenameAt time = s.fileHelper.filename then [] else [s.filenameAt time]) s' := by
  obtain ⟨hname, hfresh⟩ := h.filenameAt_fresh hrotate
  have hne : s.filenameAt time ≠ [] := by
    rw [hname]
    exact DailyFilenameCalculator.dayFilename_ne_nil _ _
  obtain ⟨file, hopen, hready, hfilename, hcontent⟩ :=
    openFor_quiet h.ready.quiet h.ready.nullStream hne time
  obtain ⟨last, hlast, -, hdays⟩ := h.dated
  have hgone : s.filenameAt time ∉ gone := by
    by_cases hcurrent : s.filenameAt time = s.fileHelper.filename
    · rw [hcurrent]
      exact h.current_there
    · exact fun hmem => hfresh hcurrent (h.gone_sub _ hmem)
  refine ⟨_, hopen, rfl, hfilename, ?_⟩
  constructor
  case fileNameCalc => exact h.fileNameCalc
  case zone => exact h.zone
  case rotationH => exact h.rotationH
  case rotationM => exact h.rotationM
  case ready => exact hready
  case current => exact ⟨s.opened, by dsimp only; rw [hfilename]⟩
  case current_there => rwa [hfilename]
  case dated =>
    refine ⟨time, lt_nextRotationTp h.zone h.rotationH h.rotationM time, hfilename.trans hname, ?_⟩
    intro f hf
    rw [← List.append_assoc, List.mem_append, List.mem_singleton] at hf
    rcases hf with hf | rfl
    · obtain ⟨d, hd, heq⟩ := hdays f hf
      have hmono : localDay offset last ≤ localDay offset time := localDay_mono offset (by omega)
      exact ⟨d, hd.trans hmono, heq⟩
    · exact ⟨_, le_rfl, hname⟩
  case written =>
    intro entry hentry
    exact List.mem_append_left _ (h.written entry hentry)
  case onDisk =>
    intro f hf hnot
    by_cases heq : f = s.filenameAt time
    -- The opened file may have been there before, and may be cut to nothing now.
    · refine ⟨_, (congrFun hcontent f).trans (by rw [heq, Function.update_self]), ?_⟩
      rw [heq]
      exact h.writtenTo_suffix hrotate hempty
    · have hold : f ∈ s.opened := by
        rcases List.mem_append.mp hf with hf | hf
        · exact hf
        · exact absurd (List.mem_singleton.mp hf) heq
      obtain ⟨content, hthere, hsuffix⟩ := h.onDisk f hold hnot
      refine ⟨content, ?_, hsuffix⟩
      calc _ = Function.update s.os.content _ _ f := congrFun hcontent f
        _ = s.os.content f := Function.update_of_ne heq _ _
        _ = some content := hthere
  case removed =>
    intro f hf
    have hne : f ≠ s.filenameAt time := by
      intro heq
      exact hgone (heq ▸ hf)
    calc _ = Function.update s.os.content _ _ f := congrFun hcontent f
      _ = s.os.content f := Function.update_of_ne hne _ _
      _ = none := h.removed f hf
  case gone_sub =>
    intro f hf
    rw [← List.append_assoc]
    exact List.mem_append_left _ (h.gone_sub f hf)
  case unlimited => exact h.unlimited
  case window =>
    intro hmax
    split_ifs with hcurrent
    · obtain ⟨earlier, hearlier⟩ := h.current
      exact (h.window hmax).reopened (hcurrent ▸ hearlier) rfl rfl rfl
    · exact (h.window hmax).opened (hfresh hcurrent) rfl rfl rfl

theorem Keeps.write (h : Keeps offset before gone pending s) (formatted : Bytes) :
    ∃ s', s.write formatted = (none, s') ∧ s'.maxFiles = s.maxFiles ∧
      s'.fileHelper.filename = s.fileHelper.filename ∧ Keeps offset before gone pending s' := by
  obtain ⟨file, hwrite, hready, hfilename, hcontent⟩ := write_ready h.ready formatted
  refine ⟨_, hwrite, rfl, hfilename, ?_⟩
  constructor
  case fileNameCalc => exact h.fileNameCalc
  case zone => exact h.zone
  case rotationH => exact h.rotationH
  case rotationM => exact h.rotationM
  case ready => exact hready
  case current =>
    dsimp only
    rw [hfilename]
    exact h.current
  case current_there =>
    rw [hfilename]
    exact h.current_there
  case dated =>
    obtain ⟨last, hlast, hcurrent, hdays⟩ := h.dated
    exact ⟨last, hlast, hfilename.trans hcurrent, hdays⟩
  case written =>
    intro entry hentry
    rcases List.mem_append.mp hentry with hentry | hentry
    · exact h.written entry hentry
    · rw [List.mem_singleton.mp hentry]
      exact h.current_mem
  case onDisk =>
    intro f hf hnot
    obtain ⟨content, hthere, hsuffix⟩ := h.onDisk f hf hnot
    unfold OnDisk writtenTo
    dsimp only
    rw [List.filter_append, List.map_append, List.flatten_append, hcontent]
    by_cases heq : f = s.fileHelper.filename
    -- The text goes to the end of the file, as its entry does to the end of `written`.
    · obtain ⟨before, rfl⟩ := hsuffix
      refine ⟨_, by rw [heq, Function.update_self, ← heq, hthere, Option.map_some], before, ?_⟩
      simp [heq, writtenTo]
    · refine ⟨content, by rw [Function.update_of_ne heq, hthere], ?_⟩
      simpa [Ne.symm heq, writtenTo] using hsuffix
  case removed =>
    intro f hf
    have hne : f ≠ s.fileHelper.filename := by
      intro heq
      exact h.current_there (heq ▸ hf)
    calc _ = Function.update s.os.content _ _ f := congrFun hcontent f
      _ = s.os.content f := Function.update_of_ne hne _ _
      _ = none := h.removed f hf
  case gone_sub => exact h.gone_sub
  case unlimited => exact h.unlimited
  case window =>
    intro hmax
    have hwindow := h.window hmax
    exact ⟨hwindow.wellFormed, hwindow.maxItems, hwindow.names, hwindow.full,
      hwindow.before_new, hwindow.pending_new⟩

/-- The name of the current file is in the queue now, and the files of the names
`out` that have left it are gone. -/
theorem Keeps.enqueue (h : Keeps offset before gone [s.fileHelper.filename] s)
    (hmax : s.maxFiles ≠ 0) {os : Os} {q : CircularQ Bytes} {out : List Bytes}
    (hquiet : os.Quiet) (hdir : os.fs.dir s.fileHelper.filename = s.os.fs.dir s.fileHelper.filename)
    (hremoved : ∀ f ∈ out, os.content f = none)
    (hcontent : ∀ f ∉ out, os.content f = s.os.content f)
    (hq : q.WellFormed) (hitems : q.maxItems = s.filenamesQ.maxItems)
    (hnames : out ++ q.toList = s.filenamesQ.toList ++ [s.fileHelper.filename])
    (hout : ∀ f ∈ out, f ∈ s.filenamesQ.toList)
    (hfull : gone ++ out ≠ [] → q.toList.length = s.maxFiles.toNat) :
    Keeps offset before (gone ++ out) [] { s.setOs os with filenamesQ := q } := by
  have hwindow := h.window hmax
  have hcurrent := hwindow.pending_new _ (List.mem_singleton_self _)
  -- What leaves the queue was in it before, and the current name was not.
  have hthere : s.fileHelper.filename ∉ gone ++ out := by
    intro hmem
    rcases List.mem_append.mp hmem with hmem | hmem
    · exact hcurrent (List.mem_append_left _ hmem)
    · exact hcurrent (List.mem_append_right _ (hout _ hmem))
  constructor
  case fileNameCalc => exact h.fileNameCalc
  case zone => exact h.zone
  case rotationH => exact h.rotationH
  case rotationM => exact h.rotationM
  case ready =>
    obtain ⟨fp, hfd, hstream⟩ := h.ready.stream
    exact ⟨hquiet, ⟨fp, hfd, hdir.trans hstream⟩, h.ready.nullStream⟩
  case current => exact h.current
  case current_there => exact hthere
  case dated => exact h.dated
  case written => exact h.written
  case onDisk =>
    intro f hf hnot
    rw [List.mem_append, not_or] at hnot
    obtain ⟨content, hfound, hsuffix⟩ := h.onDisk f hf hnot.1
    exact ⟨content, (hcontent f hnot.2).trans hfound, hsuffix⟩
  case removed =>
    intro f hf
    by_cases hnow : f ∈ out
    · exact hremoved f hnow
    · have hold : f ∈ gone := (List.mem_append.mp hf).resolve_right hnow
      exact (hcontent f hnow).trans (h.removed f hold)
  case gone_sub =>
    intro f hf
    rcases List.mem_append.mp hf with hf | hf
    · exact h.gone_sub f hf
    · have hmem : f ∈ gone ++ s.filenamesQ.toList ++ [s.fileHelper.filename] :=
        List.mem_append_left _ (List.mem_append_right _ (hout f hf))
      rw [hwindow.names] at hmem
      exact (List.mem_append.mp hmem).elim (fun hbefore => List.mem_append_left _ hbefore)
        fun hopened => List.mem_append_right _ (List.mem_dedup.mp hopened)
  case unlimited =>
    intro hzero
    exact absurd hzero hmax
  case window =>
    intro _
    refine ⟨hq, hitems.trans hwindow.maxItems, ?_, hfull, hwindow.before_new, ?_⟩
    -- The name moves from `pending` to the end of the queue, and `out` to the end of `gone`.
    · calc gone ++ out ++ q.toList ++ []
          = gone ++ (s.filenamesQ.toList ++ [s.fileHelper.filename]) := by
            rw [List.append_nil, List.append_assoc, hnames]
        _ = before ++ s.opened.dedup := by
            rw [← List.append_assoc, hwindow.names]
    · intro f hf
      exact absurd hf List.not_mem_nil

theorem Keeps.deleteOld (h : Keeps offset before gone [s.fileHelper.filename] s)
    (hmax : s.maxFiles ≠ 0) :
    ∃ s' gone', s.deleteOld = (none, s') ∧ Keeps offset before gone' [] s' := by
  have hwindow := h.window hmax
  have hpos : s.maxFiles.toNat ≠ 0 := by
    intro hzero
    exact hmax (UInt16.toNat_inj.mp hzero)
  have hcurrent := hwindow.pending_new _ (List.mem_singleton_self _)
  rw [DailyFileSink.deleteOld]
  dsimp only
  by_cases hfull : s.filenamesQ.full = true
  -- The front goes out and leaves room for the name of the current file.
  · have hlength := hwindow.wellFormed.full_iff.mp hfull
    rw [hwindow.maxItems, Nat.add_sub_cancel] at hlength
    have hitems : 1 < s.filenamesQ.maxItems := by
      rw [hwindow.maxItems]
      omega
    obtain ⟨rest, hcons, hpushed⟩ :=
      hwindow.wellFormed.toList_replace hitems hfull s.fileHelper.filename
    obtain ⟨hok, hquiet, hcontent⟩ := Os.removeIfExists_quiet h.ready.quiet s.filenamesQ.front
    have hfront : s.filenamesQ.front ∈ s.filenamesQ.toList := by
      rw [hcons]
      exact List.mem_cons_self
    have hne : s.fileHelper.filename ≠ s.filenamesQ.front := by
      intro heq
      exact hcurrent (List.mem_append_right _ (heq ▸ hfront))
    rw [if_pos hfull, if_pos hok]
    refine ⟨_, gone ++ [s.filenamesQ.front], rfl, h.enqueue hmax hquiet
      (Os.dir_removeIfExists _ hne) ?_ ?_ (hwindow.wellFormed.popFront.pushBack _) (by simp)
      ?_ ?_ ?_⟩
    · intro f hf
      rw [hcontent, List.mem_singleton.mp hf, Function.update_self]
    · intro f hf
      rw [hcontent, Function.update_of_ne (mt List.mem_singleton.mpr hf)]
    · rw [hpushed, hcons]
      rfl
    · intro f hf
      rw [List.mem_singleton.mp hf]
      exact hfront
    · intro _
      rw [hcons, List.length_cons] at hlength
      rw [hpushed, List.length_append, List.length_singleton]
      exact hlength
  -- While there is room no file has been removed.
  · have hnone : gone = [] := by
      by_contra hne
      have hlength := hwindow.full hne
      refine hfull (hwindow.wellFormed.full_iff.mpr ?_)
      rw [hwindow.maxItems, hlength, Nat.add_sub_cancel]
    have hroom : s.filenamesQ.full = false := by simpa using hfull
    have hpushed := (hwindow.wellFormed.toList_pushBack_of_room hroom s.fileHelper.filename).1
    rw [if_neg hfull]
    refine ⟨_, gone ++ [], rfl, h.enqueue hmax h.ready.quiet rfl (by simp) (fun _ _ => rfl)
      (hwindow.wellFormed.pushBack _) (by simp) hpushed (by simp) ?_⟩
    intro hne
    exact absurd (by simp [hnone]) hne

/-- A sound step keeps the invariant. -/
theorem Keeps.step (h : Keeps offset before gone [] s) {msg : DailyMessage} (hsound : s.Sound msg) :
    ∃ gone', Keeps offset before gone' [] (s.step msg) := by
  rw [DailyFileSink.step, DailyFileSink.sinkIt]
  by_cases hrotate : s.shouldRotate msg = true
  · have htime : s.rotationTp ≤ msg.time := by simpa [shouldRotate] using hrotate
    obtain ⟨hlimit, hempty⟩ := hsound hrotate
    obtain ⟨s₁, hopen, hmax₁, hname₁, hkeeps₁⟩ := h.openFor htime hempty
    rw [if_pos hrotate, hopen, Outcome.andThen_returned rfl]
    cases htext : msg.text with
    | error thrown =>
        rw [htext] at hlimit
        by_cases hcurrent : s.filenameAt msg.time = s.fileHelper.filename
        · rw [if_pos hcurrent] at hkeeps₁
          exact ⟨gone, hkeeps₁⟩
        -- The name would be missing in the queue, if there were one.
        · have hmax : s.maxFiles = 0 := by
            by_contra hmax
            exact Bool.false_ne_true ((hlimit hmax).mpr hcurrent)
          exact ⟨gone, hkeeps₁.setPending (hmax₁.trans hmax) []⟩
    | ok formatted =>
        rw [htext] at hlimit
        obtain ⟨s₂, hwrite, hmax₂, hname₂, hkeeps₂⟩ := hkeeps₁.write formatted
        dsimp only
        rw [hwrite, Outcome.andThen_returned rfl]
        dsimp only
        split_ifs with hdelete
        · have hmax : s₂.maxFiles ≠ 0 := UInt16.pos_iff_ne_zero.mp hdelete.2
          have hcurrent := (hlimit (hmax₁ ▸ hmax₂ ▸ hmax)).mp rfl
          rw [if_neg hcurrent, ← hname₁, ← hname₂] at hkeeps₂
          obtain ⟨s₃, gone', hdeleted, hkeeps₃⟩ := hkeeps₂.deleteOld hmax
          rw [hdeleted]
          exact ⟨gone', hkeeps₃⟩
        · have hmax : s₂.maxFiles = 0 := by
            by_contra hmax
            exact hdelete ⟨hrotate, UInt16.pos_iff_ne_zero.mpr hmax⟩
          exact ⟨gone, hkeeps₂.setPending hmax []⟩
  · rw [if_neg hrotate, Outcome.andThen_returned rfl]
    cases msg.text with
    | error thrown => exact ⟨gone, h⟩
    | ok formatted =>
        obtain ⟨s₁, hwrite, -, -, hkeeps⟩ := h.write formatted
        dsimp only
        rw [hwrite, Outcome.andThen_returned rfl]
        dsimp only
        rw [if_neg (fun hboth => hrotate hboth.1)]
        exact ⟨gone, hkeeps⟩

/-! ## The constructor -/

/-- What `init_filenames_q_` finds are names of days up to `now`. -/
theorem mem_initFilenames {s : DailyFileSink}
    (hcalc : s.fileNameCalc = DailyFilenameCalculator.calcFilename)
    (hzone : s.zone = .constant offset) {n : ℕ} {now : ℤ} {f : Bytes}
    (hf : f ∈ s.initFilenames n now) :
    ∃ d ≤ localDay offset now, f = DailyFilenameCalculator.dayFilename s.baseFilename d := by
  induction n generalizing now with
  | zero => exact absurd hf List.not_mem_nil
  | succ n ih =>
      rw [initFilenames] at hf
      split_ifs at hf
      · rcases List.mem_cons.mp hf with rfl | hf
        · refine ⟨_, le_rfl, ?_⟩
          rw [filenameAt, hcalc, hzone]
          exact DailyFilenameCalculator.calcFilename_localtime ..
        · obtain ⟨d, hd, heq⟩ := ih hf
          have hearlier : now - dayNanos ≤ now := by
            have hday : 0 ≤ dayNanos := by decide
            omega
          exact ⟨d, hd.trans (localDay_mono offset hearlier), heq⟩
      · exact absurd hf List.not_mem_nil

theorem length_initFilenames (s : DailyFileSink) (n : ℕ) (now : ℤ) :
    (s.initFilenames n now).length ≤ n := by
  induction n generalizing now with
  | zero => simp [initFilenames]
  | succ n ih =>
      rw [initFilenames]
      split_ifs
      · exact Nat.succ_le_succ (ih _)
      · exact Nat.zero_le _

/-- The names found are those before the file that has just been opened, and its
own. -/
theorem initFilenames_opened {s : DailyFileSink}
    (hcalc : s.fileNameCalc = DailyFilenameCalculator.calcFilename)
    (hzone : s.zone = .constant offset) {now : ℤ} (hstart : SoundStart offset s.maxFiles now)
    (hmax : s.maxFiles ≠ 0) (hthere : (s.os.content (s.filenameAt now)).isSome) :
    ∃ rest, s.initFilenames s.maxFiles.toNat now = s.filenameAt now :: rest ∧
      ∀ f ∈ rest, ∃ d < localDay offset now,
        f = DailyFilenameCalculator.dayFilename s.baseFilename d := by
  obtain ⟨n, hn⟩ : ∃ n, s.maxFiles.toNat = n + 1 :=
    Nat.exists_eq_succ_of_ne_zero fun hzero => hmax (UInt16.toNat_inj.mp hzero)
  refine ⟨s.initFilenames n (now - dayNanos), ?_, ?_⟩
  · rw [hn, initFilenames, Os.pathExists_eq, if_pos hthere]
  · intro f hf
    obtain ⟨d, hd, heq⟩ := mem_initFilenames hcalc hzone hf
    have hmore : 1 < s.maxFiles := by
      rw [UInt16.lt_iff_toNat_lt, hn]
      cases n with
      | zero => exact absurd hf List.not_mem_nil
      | succ n => exact Nat.succ_lt_succ (Nat.succ_pos n)
    have hearlier : localDay offset (now - dayNanos) ≤ localDay offset now := by
      have hday : 0 ≤ dayNanos := by decide
      exact localDay_mono offset (by omega)
    have hne := hstart hmore
    exact ⟨d, by omega, heq⟩

/-- The first file has been opened.  What is to be shown of the queue is left
open. -/
theorem Keeps.first (hcalc : s.fileNameCalc = DailyFilenameCalculator.calcFilename)
    (hzone : s.zone = .constant offset) (hhour : 0 ≤ s.rotationH) (hminute : 0 ≤ s.rotationM)
    (hquiet : s.os.Quiet) (hnull : s.fileHelper.nullStream = false) (hopened : s.opened = [])
    (hwritten : s.written = []) (now : ℤ) :
    ∃ file rotationTp, s.openFor now now =
        (none, { s with fileHelper := file, rotationTp, opened := [s.filenameAt now] }) ∧
      (file.os.content (s.filenameAt now)).isSome ∧
      ∀ before q, (∀ f ∈ before, ∃ d < localDay offset now,
          f = DailyFilenameCalculator.dayFilename s.baseFilename d) →
        let s' := { s with
          fileHelper := file
          rotationTp
          opened := [s.filenameAt now]
          filenamesQ := q }
        (s.maxFiles ≠ 0 → Window before [] [] s') → Keeps offset before [] [] s' := by
  have hname : s.filenameAt now =
      DailyFilenameCalculator.dayFilename s.baseFilename (localDay offset now) := by
    rw [filenameAt, hcalc, hzone]
    exact DailyFilenameCalculator.calcFilename_localtime ..
  have hne : s.filenameAt now ≠ [] := by
    rw [hname]
    exact DailyFilenameCalculator.dayFilename_ne_nil _ _
  obtain ⟨file, hopen, hready, hfilename, hcontent⟩ := openFor_quiet hquiet hnull hne now
  have hfound := congrFun hcontent (s.filenameAt now)
  rw [Function.update_self] at hfound
  rw [hopened, List.nil_append] at hopen
  -- From here on the queue is any that satisfies `Window`: the constructor fills it after this.
  refine ⟨file, _, hopen, Option.isSome_of_eq_some hfound, ?_⟩
  intro before q hbefore s' hwindow
  constructor
  case fileNameCalc => exact hcalc
  case zone => exact hzone
  case rotationH => exact hhour
  case rotationM => exact hminute
  case ready => exact hready
  case current => exact ⟨[], by rw [hfilename]; rfl⟩
  case current_there => exact List.not_mem_nil
  case dated =>
    refine ⟨now, lt_nextRotationTp hzone hhour hminute now, hfilename.trans hname, ?_⟩
    intro f hf
    rcases List.mem_append.mp hf with hf | hf
    · obtain ⟨d, hd, heq⟩ := hbefore f hf
      exact ⟨d, hd.le, heq⟩
    · exact ⟨_, le_rfl, (List.mem_singleton.mp hf).trans hname⟩
  case written =>
    intro entry hentry
    exact absurd (hwritten ▸ hentry) List.not_mem_nil
  case onDisk =>
    intro f hf _
    rw [List.mem_singleton] at hf
    refine ⟨_, hf ▸ hfound, ?_⟩
    rw [writtenTo, show s'.written = [] from hwritten]
    exact List.nil_suffix
  case removed =>
    intro f hf
    exact absurd hf List.not_mem_nil
  case gone_sub =>
    intro f hf
    exact absurd hf List.not_mem_nil
  case unlimited =>
    intro _
    exact rfl
  case window => exact hwindow

theorem Keeps.new {base : Bytes} {hour minute : ℤ} {truncate : Bool} {maxFiles : UInt16}
    {now : ℤ} {os : Os} (hquiet : os.Quiet) (hstart : SoundStart offset maxFiles now)
    (hnew : (new DailyFilenameCalculator.calcFilename (.constant offset) base hour minute truncate
      maxFiles now os).1 = none) :
    ∃ before, Keeps offset before [] [] (new DailyFilenameCalculator.calcFilename
      (.constant offset) base hour minute truncate maxFiles now os).2 := by
  rw [DailyFileSink.new, newAt] at hnew ⊢
  split_ifs at hnew ⊢ with hinvalid
  obtain ⟨file, rotationTp, hopen, hthere, hkeeps⟩ := Keeps.first
    (s := ⟨DailyFilenameCalculator.calcFilename, .constant offset, base, hour, minute, 0,
      .initial os, truncate, maxFiles, .disabled, [], []⟩)
    rfl rfl (by dsimp only; omega) (by dsimp only; omega) hquiet rfl rfl rfl now
  dsimp only at hopen hthere hkeeps ⊢
  rw [hopen, Outcome.andThen_returned rfl]
  dsimp only
  split_ifs with hpos
  · have hmax : maxFiles ≠ 0 := UInt16.pos_iff_ne_zero.mp hpos
    set s : DailyFileSink := ⟨DailyFilenameCalculator.calcFilename, .constant offset, base, hour,
      minute, rotationTp, file, truncate, maxFiles, .disabled, _, []⟩
    obtain ⟨rest, hnames, hrest⟩ := initFilenames_opened (s := s) rfl rfl hstart hmax hthere
    have hlength := s.length_initFilenames s.maxFiles.toNat now
    have hbound := s.maxFiles.toNat_lt
    rw [hnames, ← List.length_reverse] at hlength
    obtain ⟨hwell, hitems, hlist⟩ := CircularQ.toList_filled (by unfold sizeT; omega) hlength
    rw [initFilenamesQ, hnames]
    refine ⟨rest.reverse, hkeeps rest.reverse _ ?_ fun _ => ?_⟩
    · intro f hf
      exact hrest f (List.mem_reverse.mp hf)
    · refine ⟨hwell, hitems, ?_, fun hne => absurd rfl hne, ?_,
        fun f hf => absurd hf List.not_mem_nil⟩
      · rw [List.nil_append, List.append_nil, (List.nodup_singleton _).dedup]
        exact hlist.trans List.reverse_cons
      · -- The days found are earlier than that of the file just opened.
        intro f hf hsame
        obtain ⟨d, hd, heq⟩ := hrest f (List.mem_reverse.mp hf)
        rw [List.mem_singleton.mp hsame] at heq
        have hday := DailyFilenameCalculator.dayFilename_injective _
          ((DailyFilenameCalculator.calcFilename_localtime base offset now).symm.trans heq)
        omega
  · have hmax : maxFiles = 0 := by
      by_contra hne
      exact hpos (UInt16.pos_iff_ne_zero.mpr hne)
    exact ⟨[], hkeeps [] .disabled (by simp) fun hne => absurd hmax hne⟩

/-- In a run of sound steps after a sound start, the sink does what it is for at
every point. -/
theorem daily_file_sink_retains (offset : ℤ) (base : Bytes) (hour minute : ℤ) (truncate : Bool)
    (maxFiles : UInt16) (start : ℤ) (os : Os) (hquiet : os.Quiet)
    (msgs : List DailyMessage) (hstart : SoundStart offset maxFiles start) :
    let created := new DailyFilenameCalculator.calcFilename (.constant offset) base hour minute
      truncate maxFiles start os
    created.1 = none → (∀ p ∈ Runs.trace step created.2 msgs, p.1.Sound p.2) →
      (Runs.run step created.2 msgs).Retains ∧
        ∀ p ∈ Runs.trace step created.2 msgs, p.1.Retains := by
  intro created hnew hsound
  obtain ⟨before, hcreated⟩ := Keeps.new hquiet hstart hnew
  obtain ⟨hrun, htrace⟩ := Runs.invariant_of_steps
    (motive := fun s => ∃ gone, Keeps offset before gone [] s) (C := Sound)
    (fun s msg hkeeps hstep => hkeeps.elim fun _ hkeeps => hkeeps.step hstep)
    ⟨[], hcreated⟩ msgs hsound
  constructor
  · obtain ⟨gone, hkeeps⟩ := hrun
    exact hkeeps.retains
  · intro p hp
    obtain ⟨gone, hkeeps⟩ := htrace p hp
    exact hkeeps.retains

/-- Three days with a rotation at midnight, and one file kept. -/
theorem daily_file_sink_retains_midnight :
    let created := new DailyFilenameCalculator.calcFilename (.constant 0) (ascii "d.txt") 0 0 true 1
      (36000 * nanos + dayNanos) .blank
    let msgs : List DailyMessage := [⟨46800 * nanos + dayNanos, .ok (ascii "x")⟩,
      ⟨46800 * nanos + 2 * dayNanos, .ok (ascii "y")⟩, ⟨3 * dayNanos, .ok (ascii "z")⟩]
    (Runs.run step created.2 msgs).Retains ∧
      ∀ p ∈ Runs.trace step created.2 msgs, p.1.Retains :=
  daily_file_sink_retains 0 (ascii "d.txt") 0 0 true 1 (36000 * nanos + dayNanos) .blank
    Os.quiet_blank [⟨46800 * nanos + dayNanos, .ok (ascii "x")⟩,
      ⟨46800 * nanos + 2 * dayNanos, .ok (ascii "y")⟩, ⟨3 * dayNanos, .ok (ascii "z")⟩]
    (by decide) (by decide) (by decide)

/-- A sink started at 10:00 that rotates at 12:00 and keeps one file: the message of
13:00 is written into the file of that day, and the file is removed. -/
theorem daily_file_sink_removes_current :
    let created := new DailyFilenameCalculator.calcFilename (.constant 0) (ascii "d.txt") 12 0
      false 1 (36000 * nanos + dayNanos) .blank
    let msg : DailyMessage := ⟨46800 * nanos + dayNanos, .ok (ascii "x")⟩
    let s := created.2.step msg
    created.1 = none ∧ (created.2.sinkIt msg.time msg).1 = none ∧
      s.written = [(s.fileHelper.filename, ascii "x")] ∧
      s.os.content s.fileHelper.filename = none ∧ ¬ s.Retains := by
  intro created msg s
  have hgone : s.os.content s.fileHelper.filename = none := by decide
  refine ⟨by decide, by decide, by decide, hgone, ?_⟩
  intro hretains
  obtain ⟨content, hthere, -⟩ := hretains.current
  rw [hgone] at hthere
  exact Option.some_ne_none content hthere.symm

end DailyFileSink

end Structlog
