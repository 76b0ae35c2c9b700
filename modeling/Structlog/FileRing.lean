import Structlog.TimedFileSinks

/-!
# The files of the timed sinks

What the daily and the hourly sink do with their files is the same: `FileRing` is the part of
either that has to do with it, the open file, the queue of the names and the names that have
been opened.  A message comes with the name of a new file if it rotates (`handle`), and both
sinks are this in a run (`ring_stepAt`).

The lemmas are about a rotation in which the new file is opened and written to; removing the
old one may fail.
-/

namespace Structlog

open Lib

/-! ## The ring -/

structure FileRing where
  file : FileHelper
  queue : CircularQ Bytes
  /-- The names of the files that have been opened, in order. -/
  opened : List Bytes

namespace FileRing

/-- Open a new file. -/
def openNew (truncate : Bool) (filename : Bytes) (r : FileRing) : Outcome FileRing :=
  ((r.file.openFile filename truncate).within fun file => { r with file }).andThen fun r =>
    (none, { r with opened := r.opened ++ [filename] })

/-- Put the name of the file into the queue, and remove the oldest file if that is full. -/
def deleteOld (r : FileRing) : FileRing :=
  if r.queue.full then
    { r with
      file := { r.file with os := (r.file.os.removeIfExists r.queue.front).2 }
      queue := r.queue.popFront.pushBack r.file.filename }
  else { r with queue := r.queue.pushBack r.file.filename }

/-- What becomes of the files with a message that brings a new one, or does not. -/
def handle (truncate limited : Bool) (rotation : Option Bytes) (text : Except Thrown Bytes)
    (r : FileRing) : FileRing :=
  let opened := match rotation with
    | some filename => r.openNew truncate filename
    | none => (none, r)
  (opened.andThen fun r =>
    match text with
    | .error thrown => (some thrown, r)
    | .ok formatted =>
        ((r.file.write formatted).within fun file => { r with file }).andThen fun r =>
          (none, if rotation.isSome && limited then r.deleteOld else r)).2

end FileRing

/-! ## Files that are opened and written to -/

namespace Os

/-- The next calls do not fail. -/
def Clear (calls : ℕ) (os : Os) : Prop := ∀ k < calls, os.faults k = none

theorem Clear.later {calls : ℕ} {os os' : Os} (h : os.Clear (calls + 1))
    (hfaults : os'.faults = os.next.faults) : os'.Clear calls := by
  intro k hk
  rw [hfaults]
  exact h (k + 1) (Nat.succ_lt_succ hk)

theorem fopen_clear {os : Os} (h : os.Clear 1) {filename : Bytes} (hname : filename ≠ [])
    (mode : OpenMode) :
    ∃ fp os', os.fopen filename mode = (some fp, os') ∧ os'.faults = os.next.faults ∧
      ∀ f, os'.pathExists f = true ↔ f = filename ∨ os.pathExists f = true := by
  have hdir (f : Bytes) : ((os.fs.openName filename).2.dir f).isSome = true ↔
      f = filename ∨ (os.fs.dir f).isSome = true := by
    have hcontent := congrArg Option.isSome (FileSystem.content_openName os.fs filename f)
    rw [FileSystem.content, Option.isSome_map] at hcontent
    rw [hcontent]
    split_ifs with hf
    · simp [hf]
    · rw [FileSystem.content, Option.isSome_map]
      simp [hf]
  cases mode with
  | ab =>
      refine ⟨(os.fs.openName filename).1, { os.next with fs := (os.fs.openName filename).2 },
        ?_, rfl, hdir⟩
      simp [fopen, h 0 Nat.one_pos, hname]
  | wb =>
      refine ⟨(os.fs.openName filename).1,
        { os.next with fs := (os.fs.openName filename).2.setData (os.fs.openName filename).1 [] },
        ?_, rfl, hdir⟩
      simp [fopen, h 0 Nat.one_pos, hname]

theorem removeIfExists_cases (filename : Bytes) (os : Os) (f : Bytes) :
    (os.removeIfExists filename).2.pathExists f = true ↔
      os.pathExists f = true ∧ ¬ (f = filename ∧ os.faults 0 = none) := by
  unfold removeIfExists remove
  split_ifs with hexists
  · cases hfault : os.faults 0 with
    | some fault => simp [fail, next, pathExists]
    | none =>
        simp only [pathExists, FileSystem.remove, Function.update_apply]
        by_cases hf : f = filename <;> simp [hf]
  · constructor
    · intro hthere
      exact ⟨hthere, fun hboth => hexists (hboth.1 ▸ hthere)⟩
    · exact And.left

end Os

namespace FileHelper

/-- How many calls it takes to open a file. -/
def openCalls (truncate : Bool) : ℕ := if truncate then 2 else 1

theorem openFile_clear {truncate : Bool} {file : FileHelper}
    (h : file.os.Clear (openCalls truncate)) {fname : Bytes} (hname : fname ≠ []) :
    ∃ fp os, file.openFile fname truncate =
        (none, { file with fd := some fp, filename := fname, os }) ∧
      (os.faults = fun k => file.os.faults (k + openCalls truncate)) ∧
      ∀ f, os.pathExists f = true ↔ f = fname ∨ file.os.pathExists f = true := by
  cases truncate with
  | false =>
      obtain ⟨fp, os, hopen, hfaults, hexists⟩ := Os.fopen_clear h hname .ab
      have hopen' : file.close.os.fopen fname .ab = (some fp, os) := hopen
      refine ⟨fp, os, ?_, hfaults, hexists⟩
      rw [openFile, openTries, openLoop, tryOpen]
      dsimp only
      rw [hopen']
      rfl
  | true =>
      have hclear : file.os.Clear (1 + 1) := h
      obtain ⟨tmp, os₁, hopen₁, hfaults₁, hexists₁⟩ :=
        Os.fopen_clear (fun k hk => hclear k (by omega)) hname .wb
      obtain ⟨fp, os, hopen, hfaults, hexists⟩ :=
        Os.fopen_clear (hclear.later hfaults₁) hname .ab
      have hopen₁' : file.close.os.fopen fname .wb = (some tmp, os₁) := hopen₁
      refine ⟨fp, os, ?_, ?_, fun f => ?_⟩
      · rw [openFile, openTries, openLoop, tryOpen]
        dsimp only
        rw [if_pos rfl, hopen₁']
        dsimp only
        rw [hopen]
        rfl
      · rw [hfaults]
        funext k
        exact congrFun hfaults₁ (k + 1)
      · rw [hexists, hexists₁, ← or_assoc, or_self]

end FileHelper

namespace FileRing

theorem pathExists_write (formatted : Bytes) (file : FileHelper) (f : Bytes) :
    (file.write formatted).2.os.pathExists f = file.os.pathExists f := by
  obtain ⟨taken, -, -, hfs⟩ := file.write_appends formatted
  rw [Os.pathExists, hfs]
  cases file.fd <;> rfl

/-- A message that does not rotate is at most written. -/
theorem handle_stayed (truncate limited : Bool) (text : Except Thrown Bytes) (r : FileRing) :
    (r.handle truncate limited none text).queue = r.queue ∧
      (r.handle truncate limited none text).opened = r.opened ∧
      (r.handle truncate limited none text).file.filename = r.file.filename ∧
      ∀ f, (r.handle truncate limited none text).file.os.pathExists f =
        r.file.os.pathExists f := by
  cases text with
  | error thrown => exact ⟨rfl, rfl, rfl, fun _ => rfl⟩
  | ok formatted =>
      obtain ⟨-, -, hfilename, -⟩ := r.file.write_appends formatted
      have hexists := pathExists_write formatted r.file
      simp only [handle, Outcome.andThen, Outcome.within]
      generalize r.file.write formatted = written at hfilename hexists ⊢
      rcases written with ⟨_ | thrown, file⟩ <;> exact ⟨rfl, rfl, hfilename, hexists⟩

variable {truncate : Bool} {filename : Bytes} {r : FileRing}

theorem openNew_clear (h : r.file.os.Clear (FileHelper.openCalls truncate))
    (hname : filename ≠ []) :
    ∃ fp os, r.openNew truncate filename =
        (none, { r with
          file := { r.file with fd := some fp, filename, os }
          opened := r.opened ++ [filename] }) ∧
      (os.faults = fun k => r.file.os.faults (k + FileHelper.openCalls truncate)) ∧
      ∀ f, os.pathExists f = true ↔ f = filename ∨ r.file.os.pathExists f = true := by
  obtain ⟨fp, os, hopen, hfaults, hexists⟩ := FileHelper.openFile_clear h hname
  exact ⟨fp, os, by rw [openNew, hopen]; rfl, hfaults, hexists⟩

/-- A message that rotates and has no text leaves its file out of the queue. -/
theorem handle_unformatted (h : r.file.os.Clear (FileHelper.openCalls truncate))
    (hname : filename ≠ []) (limited : Bool) (thrown : Thrown) :
    (r.handle truncate limited (some filename) (.error thrown)).queue = r.queue ∧
      (r.handle truncate limited (some filename) (.error thrown)).opened =
        r.opened ++ [filename] ∧
      (r.handle truncate limited (some filename) (.error thrown)).file.filename = filename ∧
      ∀ f, (r.handle truncate limited (some filename) (.error thrown)).file.os.pathExists f =
        true ↔ f = filename ∨ r.file.os.pathExists f = true := by
  obtain ⟨fp, os, hopen, -, hexists⟩ := openNew_clear h hname
  have hhandle : r.handle truncate limited (some filename) (.error thrown) = { r with
      file := { r.file with fd := some fp, filename, os }
      opened := r.opened ++ [filename] } := by
    simp only [handle, hopen, Outcome.andThen]
  rw [hhandle]
  exact ⟨rfl, rfl, rfl, hexists⟩

/-- The queue after a rotation. -/
def rotated (filename : Bytes) (r : FileRing) : List Bytes :=
  (if r.queue.full then r.queue.toList.tail else r.queue.toList) ++ [filename]

/-- The front of the queue is removed. -/
def Removes (truncate : Bool) (r : FileRing) (f : Bytes) : Prop :=
  r.queue.full = true ∧ f = r.queue.front ∧
    r.file.os.faults (FileHelper.openCalls truncate + 1) = none

theorem handle_formatted (h : r.file.os.Clear (FileHelper.openCalls truncate + 1))
    (hname : filename ≠ []) (hwell : r.queue.WellFormed) (hitems : 1 < r.queue.maxItems)
    (formatted : Bytes) :
    let r' := r.handle truncate true (some filename) (.ok formatted)
    r'.queue.WellFormed ∧ r'.queue.maxItems = r.queue.maxItems ∧
      r'.queue.toList = r.rotated filename ∧ r'.opened = r.opened ++ [filename] ∧
      r'.file.filename = filename ∧
      ∀ f, r'.file.os.pathExists f = true ↔
        (f = filename ∨ r.file.os.pathExists f = true) ∧ ¬ r.Removes truncate f := by
  have hopens : r.file.os.Clear (FileHelper.openCalls truncate) := fun k hk =>
    h k (Nat.lt_succ_of_lt hk)
  obtain ⟨fp, os, hopen, hfaults, hexists⟩ := openNew_clear hopens hname
  have hclear : os.faults 0 = none := by
    rw [hfaults]
    exact h _ (by omega)
  -- The calls are in this order: those that open the file, one that writes, one that removes.
  have hwrite : FileHelper.write formatted { r.file with fd := some fp, filename, os } =
      (none, { r.file with
        fd := some fp
        filename
        os := { os.next with fs := os.fs.append fp formatted } }) := by
    rw [FileHelper.write]
    dsimp only
    rw [Os.fwrite, hclear]
    exact Prod.ext (if_pos rfl) rfl
  have hhandle : r.handle truncate true (some filename) (.ok formatted) = deleteOld { r with
      file := { r.file with
        fd := some fp
        filename
        os := { os.next with fs := os.fs.append fp formatted } }
      opened := r.opened ++ [filename] } := by
    simp only [handle, hopen, Outcome.andThen, hwrite, Outcome.within, Option.isSome_some,
      Bool.and_self, if_true]
  have hlater : ({ os.next with fs := os.fs.append fp formatted } : Os).faults 0 =
      r.file.os.faults (FileHelper.openCalls truncate + 1) := by
    have hsecond := congrFun hfaults 1
    rw [Nat.add_comm] at hsecond
    exact hsecond
  have hthere (f : Bytes) : Os.pathExists { os.next with fs := os.fs.append fp formatted } f =
      true ↔ f = filename ∨ r.file.os.pathExists f = true := hexists f
  intro r'
  rw [show r' = _ from hhandle, deleteOld]
  dsimp only
  by_cases hfull : r.queue.full = true
  · obtain ⟨rest, hcons, hpushed⟩ := hwell.toList_replace hitems hfull filename
    rw [if_pos hfull]
    refine ⟨hwell.popFront.pushBack _, CircularQ.maxItems_pushBack _ _, ?_, rfl, rfl,
      fun f => ?_⟩
    · rw [rotated, if_pos hfull, hcons]
      exact hpushed
    · rw [Os.removeIfExists_cases, hthere, hlater, Removes]
      simp only [hfull, true_and]
  · rw [if_neg hfull]
    refine ⟨hwell.pushBack _, CircularQ.maxItems_pushBack _ _, ?_, rfl, rfl, fun f => ?_⟩
    · rw [rotated, if_neg hfull]
      exact (hwell.toList_pushBack_of_room (by simpa using hfull) filename).1
    · have hkeeps : ¬ r.Removes truncate f := fun hremoves => hfull hremoves.1
      exact (hthere f).trans (and_iff_left hkeeps).symm

end FileRing

/-! ## The sinks -/

/-- A sink with a ring of files: what the parts of it do to the ring, and that they leave
`truncate_` and `max_files_` alone. -/
structure RingSink (σ α : Type*) extends TimedSink σ α where
  ring : σ → FileRing
  settings : σ → Bool × UInt16
  /-- The name of the file that a message brings if it rotates. -/
  filename : σ → α → Bytes
  ring_rotate : ∀ a s, (ring s).openNew (settings s).1 (filename s a) =
      ((rotate a s).1, ring (rotate a s).2) ∧ settings (rotate a s).2 = settings s
  ring_write : ∀ formatted s, (((ring s).file.write formatted).within fun file =>
      { ring s with file }) = ((write formatted s).1, ring (write formatted s).2) ∧
    settings (write formatted s).2 = settings s
  ring_clean : ∀ s₀ a s, ring (clean s₀ a s).2 =
      (if rotates s₀ a && 0 < (settings s).2 then (ring s).deleteOld else ring s) ∧
    settings (clean s₀ a s).2 = settings s

namespace RingSink

variable {σ α : Type*} (sink : RingSink σ α)

def rotation (s : σ) (a : α) : Option Bytes :=
  if sink.rotates s a then some (sink.filename s a) else none

/-- A message is handled as `handle` says. -/
theorem ring_step (s : σ) (a : α) :
    sink.ring (sink.step s a) = (sink.ring s).handle (sink.settings s).1
        (0 < (sink.settings s).2) (sink.rotation s a) (sink.text a) ∧
      sink.settings (sink.step s a) = sink.settings s := by
  -- The rotation is named, so that its outcome can be split once for both sides.
  obtain ⟨o, ho⟩ : ∃ o : Outcome σ, o =
      if sink.rotates s a then sink.rotate a s else (none, s) := ⟨_, rfl⟩
  have hopened : (match sink.rotation s a with
      | some filename => (sink.ring s).openNew (sink.settings s).1 filename
      | none => (none, sink.ring s)) = (o.1, sink.ring o.2) ∧
        sink.settings o.2 = sink.settings s := by
    rw [ho, rotation]
    split_ifs
    · exact sink.ring_rotate a s
    · exact ⟨rfl, rfl⟩
  have hrotates : (sink.rotation s a).isSome = sink.rotates s a := by
    rw [rotation]
    split_ifs with hrotate
    · exact hrotate.symm
    · exact (Bool.eq_false_iff.mpr hrotate).symm
  obtain ⟨hring, hsettings⟩ := hopened
  unfold TimedSink.step TimedSink.formatAndWrite FileRing.handle
  dsimp only
  rw [← ho, hring, hrotates]
  rcases o with ⟨_ | thrown, s₁⟩
  · rcases sink.text a with thrown | formatted
    · exact ⟨rfl, hsettings⟩
    · obtain ⟨hwrite, hsettings₁⟩ := sink.ring_write formatted s₁
      dsimp only [Outcome.andThen]
      rw [hwrite]
      have hsame := hsettings₁.trans hsettings
      generalize sink.write formatted s₁ = written at hsame ⊢
      rcases written with ⟨_ | thrown, s₂⟩
      · obtain ⟨hclean, hsettings₂⟩ := sink.ring_clean s a s₂
        have hsame : sink.settings s₂ = sink.settings s := hsame
        rw [hsame] at hclean
        exact ⟨hclean, hsettings₂.trans hsame⟩
      · exact ⟨rfl, hsame⟩
  · exact ⟨rfl, hsettings⟩

end RingSink

namespace DailyFileSink

def ring (s : DailyFileSink) : FileRing := ⟨s.fileHelper, s.filenamesQ, s.opened⟩

theorem ring_deleteOld (s : DailyFileSink) :
    s.deleteOld.2.ring = s.ring.deleteOld ∧ s.deleteOld.2.truncate = s.truncate ∧
      s.deleteOld.2.maxFiles = s.maxFiles := by
  unfold deleteOld FileRing.deleteOld ring
  dsimp only
  split_ifs <;> exact ⟨rfl, rfl, rfl⟩

def ringSink : RingSink DailyFileSink (ℤ × DailyMessage) where
  toTimedSink := timedSink
  ring := ring
  settings s := (s.truncate, s.maxFiles)
  filename s call := s.filenameAt call.2.time
  ring_rotate call s := by
    simp only [timedSink, openFor, FileRing.openNew, onFile, ring]
    rcases s.fileHelper.openFile (s.filenameAt call.2.time) s.truncate with ⟨_ | _, file⟩ <;>
      exact ⟨rfl, rfl⟩
  ring_write formatted s := by
    simp only [timedSink, write, onFile, ring]
    rcases s.fileHelper.write formatted with ⟨_ | _, file⟩ <;> exact ⟨rfl, rfl⟩
  ring_clean s₀ call s := by
    obtain ⟨hring, htruncate, hmaxFiles⟩ := ring_deleteOld s
    simp only [timedSink, Bool.and_eq_true, decide_eq_true_eq]
    split_ifs
    · exact ⟨hring, Prod.ext htruncate hmaxFiles⟩
    · exact ⟨rfl, rfl⟩

end DailyFileSink

namespace HourlyFileSink

def ring (s : HourlyFileSink) : FileRing := ⟨s.fileHelper, s.filenamesQ, s.opened⟩

theorem ring_deleteOld (s : HourlyFileSink) :
    s.deleteOld.2.ring = s.ring.deleteOld ∧ s.deleteOld.2.truncate = s.truncate ∧
      s.deleteOld.2.maxFiles = s.maxFiles := by
  unfold deleteOld FileRing.deleteOld ring
  dsimp only
  split_ifs <;> exact ⟨rfl, rfl, rfl⟩

def ringSink : RingSink HourlyFileSink (ℤ × DailyMessage) where
  toTimedSink := timedSink
  ring := ring
  settings s := (s.truncate, s.maxFiles)
  filename s call := s.filenameAt call.2.time
  ring_rotate call s := by
    simp only [timedSink, openFor, FileRing.openNew, onFile, ring]
    rcases s.fileHelper.openFile (s.filenameAt call.2.time) s.truncate with ⟨_ | _, file⟩ <;>
      exact ⟨rfl, rfl⟩
  ring_write formatted s := by
    simp only [timedSink, write, onFile, ring]
    rcases s.fileHelper.write formatted with ⟨_ | _, file⟩ <;> exact ⟨rfl, rfl⟩
  ring_clean s₀ call s := by
    obtain ⟨hring, htruncate, hmaxFiles⟩ := ring_deleteOld s
    simp only [timedSink, Bool.and_eq_true, decide_eq_true_eq]
    split_ifs
    · exact ⟨hring, Prod.ext htruncate hmaxFiles⟩
    · exact ⟨rfl, rfl⟩

end HourlyFileSink

end Structlog
