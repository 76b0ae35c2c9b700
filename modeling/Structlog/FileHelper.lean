import Structlog.Os

/-!
# `file_helper`

The helper of the file sinks, with the system it runs on as part of its state.
`nullStream` records that something has been written through a null `fd_`, which
the code does not guard against.
-/

namespace Structlog

open Lib
open FileSystem (Recedes)

structure FileHelper where
  fd : Option ℕ
  filename : Bytes
  os : Os
  nullStream : Bool

namespace FileHelper

/-- A helper that has not opened anything. -/
def initial (os : Os) : FileHelper := ⟨none, [], os, false⟩

def close (h : FileHelper) : FileHelper := { h with fd := none }

def openTries : ℕ := 5

/-- One pass of the loop in `open`: whether the file is open. -/
def tryOpen (fname : Bytes) (truncate : Bool) (h : FileHelper) : Bool × FileHelper :=
  let append (os : Os) : Bool × FileHelper :=
    let (fd, os) := os.fopen fname .ab
    (fd.isSome, { h with fd, os })
  if truncate then
    match h.os.fopen fname .wb with
    | (none, os) => (false, { h with os })
    | (some _, os) => append os
  else append h.os

/-- The loop in `open`, with the tries that are left. -/
def openLoop (fname : Bytes) (truncate : Bool) : ℕ → FileHelper → Bool × FileHelper
  | 0, h => (false, h)
  | tries + 1, h =>
      match tryOpen fname truncate h with
      | (true, h') => (true, h')
      | (false, h') => openLoop fname truncate tries h'

def openFile (fname : Bytes) (truncate : Bool) (h : FileHelper) : Outcome FileHelper :=
  match openLoop fname truncate openTries { h.close with filename := fname } with
  | (true, h') => (none, h')
  | (false, h') =>
      (some (h'.os.spdlogEx (ascii "Failed opening file " ++ h'.filename ++ ascii " for writing")),
        h')

def reopen (truncate : Bool) (h : FileHelper) : Outcome FileHelper :=
  if h.filename = [] then
    (some (spdlogEx (ascii "Failed re opening file - was not opened before")), h)
  else h.openFile h.filename truncate

def write (buf : Bytes) (h : FileHelper) : Outcome FileHelper :=
  match h.fd with
  | none => (none, { h with nullStream := true })
  | some fp =>
      let (written, os) := h.os.fwrite buf fp
      (if written = buf.length then none
        else some (os.spdlogEx (ascii "Failed writing to file " ++ h.filename)),
        { h with os })

def size (h : FileHelper) : Except Thrown ℕ × FileHelper :=
  match h.fd with
  | none => (.error (spdlogEx (ascii "Cannot use size() on closed file " ++ h.filename)), h)
  | some fp =>
      let (size, os) := h.os.filesize fp
      (size, { h with os })

/-! ## File names -/

/-- `split_by_extension`, with the one separator `/`. -/
def splitByExtension (fname : Bytes) : Bytes × Bytes :=
  match rfind (charByte '.') fname with
  | none => (fname, [])
  | some extIndex =>
      if extIndex = 0 ∨ extIndex = fname.length - 1 then (fname, [])
      else
        match rfind (charByte '/') fname with
        | none => (fname.take extIndex, fname.drop extIndex)
        | some folderIndex =>
            if extIndex - 1 ≤ folderIndex then (fname, [])
            else (fname.take extIndex, fname.drop extIndex)

/-- Nothing of the name is lost. -/
theorem splitByExtension_append (fname : Bytes) :
    (splitByExtension fname).1 ++ (splitByExtension fname).2 = fname := by
  unfold splitByExtension
  split
  · simp
  · split
    · simp
    · split
      · simp
      · split <;> simp

example :
    splitByExtension (ascii "/dir1/dir2/mylog.txt") = (ascii "/dir1/dir2/mylog", ascii ".txt") ∧
    splitByExtension (ascii "my_folder/.mylog") = (ascii "my_folder/.mylog", []) := by decide

/-! ## The stream -/

/-- A try that fails leaves no stream. -/
theorem tryOpen_fd (fname : Bytes) (truncate : Bool) {h : FileHelper} (hclosed : h.fd = none) :
    (tryOpen fname truncate h).2.fd.isSome = (tryOpen fname truncate h).1 ∧
      (tryOpen fname truncate h).2.nullStream = h.nullStream := by
  unfold tryOpen
  dsimp only
  split_ifs
  · split
    · exact ⟨by rw [hclosed]; rfl, rfl⟩
    · exact ⟨rfl, rfl⟩
  · exact ⟨rfl, rfl⟩

theorem openLoop_fd (fname : Bytes) (truncate : Bool) (tries : ℕ) {h : FileHelper}
    (hclosed : h.fd = none) :
    (openLoop fname truncate tries h).2.fd.isSome = (openLoop fname truncate tries h).1 ∧
      (openLoop fname truncate tries h).2.nullStream = h.nullStream := by
  induction tries generalizing h with
  | zero => exact ⟨by rw [openLoop, hclosed]; rfl, rfl⟩
  | succ tries ih =>
      obtain ⟨hfd, hnull⟩ := tryOpen_fd fname truncate hclosed
      rw [openLoop]
      split
      · next h' htry =>
          rw [htry] at hfd hnull
          exact ⟨hfd, hnull⟩
      · next h' htry =>
          rw [htry] at hfd hnull
          have hclosed' : h'.fd = none := by simpa using hfd
          obtain ⟨hfd', hnull'⟩ := ih hclosed'
          exact ⟨hfd', hnull'.trans hnull⟩

/-- `open` closes the file it had, and throws exactly if it has no other then. -/
theorem openFile_fd (fname : Bytes) (truncate : Bool) (h : FileHelper) :
    ((h.openFile fname truncate).2.fd = none ↔ (h.openFile fname truncate).1 ≠ none) ∧
      (h.openFile fname truncate).2.nullStream = h.nullStream := by
  obtain ⟨hfd, hnull⟩ := openLoop_fd fname truncate openTries
    (h := { h.close with filename := fname }) rfl
  rw [openFile]
  split
  · next h' hloop =>
      rw [hloop] at hfd hnull
      refine ⟨?_, hnull⟩
      constructor
      · intro hnone
        rw [hnone] at hfd
        cases hfd
      · intro hthrew
        exact absurd rfl hthrew
  · next h' hloop =>
      rw [hloop] at hfd hnull
      have hclosed : h'.fd = none := by simpa using hfd
      exact ⟨iff_of_true hclosed (Option.some_ne_none _), hnull⟩

theorem write_fd (buf : Bytes) (h : FileHelper) :
    (h.write buf).2.fd = h.fd ∧
      ((h.write buf).2.nullStream = true ↔ h.nullStream = true ∨ h.fd = none) := by
  unfold write
  split
  · next hfd => exact ⟨rfl, by simp [hfd]⟩
  · next fp hfd => exact ⟨rfl, by simp [hfd]⟩

/-- A stream that is open is on the file with the name, and that is empty if it was to be. -/
def OnName (fname : Bytes) (truncate : Bool) (file : FileHelper) : Prop :=
  ∀ fp, file.fd = some fp →
    file.os.fs.dir fname = some fp ∧ (truncate = true → file.os.fs.data fp = [])

theorem tryOpen_recedes (name fname : Bytes) (truncate : Bool) {file : FileHelper}
    (hclosed : file.fd = none) :
    Recedes name file.os.fs (tryOpen fname truncate file).2.os.fs ∧
      (tryOpen fname truncate file).2.OnName fname truncate := by
  have hclosed (os : Os) : OnName fname truncate { file with os } := fun fp hfp => by
    rw [hclosed] at hfp
    cases hfp
  unfold tryOpen
  dsimp only
  cases truncate with
  | false =>
      have hrecedes := file.os.recedes_fopen name fname .ab
      cases hopen : file.os.fopen fname .ab with
      | mk fd os =>
          rw [hopen] at hrecedes
          refine ⟨hrecedes, fun fp hfp => ?_⟩
          obtain rfl : fd = some fp := hfp
          exact ⟨Os.dir_fopen hopen, fun h => absurd h Bool.false_ne_true⟩
  | true =>
      have hfirst := file.os.recedes_fopen name fname .wb
      rw [if_pos rfl]
      cases hopen : file.os.fopen fname .wb with
      | mk tmp os =>
          rw [hopen] at hfirst
          cases tmp with
          | none => exact ⟨hfirst, hclosed os⟩
          | some tmp =>
              have hsecond := os.recedes_fopen name fname .ab
              have hsame := os.recedes_fopen fname fname .ab
              cases hagain : os.fopen fname .ab with
              | mk fd os' =>
                  rw [hagain] at hsecond hsame
                  dsimp only
                  rw [hagain]
                  refine ⟨hfirst.trans hsecond, fun fp hfp => ?_⟩
                  obtain rfl : fd = some fp := hfp
                  have hdir := Os.dir_fopen hagain
                  refine ⟨hdir, fun _ => ?_⟩
                  rcases hsame.dir fp hdir with hbefore | hempty
                  · obtain rfl := Option.some.inj ((Os.dir_fopen hopen).symm.trans hbefore)
                    have hle := hsame.data tmp
                    rw [Os.data_fopen_wb hopen] at hle
                    exact List.length_eq_zero_iff.mp (Nat.le_zero.mp hle)
                  · exact hempty

theorem openLoop_recedes (name fname : Bytes) (truncate : Bool) (tries : ℕ) {file : FileHelper}
    (hclosed : file.fd = none) :
    Recedes name file.os.fs (openLoop fname truncate tries file).2.os.fs ∧
      (openLoop fname truncate tries file).2.OnName fname truncate ∧
      (openLoop fname truncate tries file).2.filename = file.filename := by
  induction tries generalizing file with
  | zero =>
      refine ⟨.refl name _, fun fp hfp => ?_, rfl⟩
      rw [openLoop, hclosed] at hfp
      cases hfp
  | succ tries ih =>
      obtain ⟨hfirst, hname⟩ := tryOpen_recedes name fname truncate hclosed
      have hfd := (tryOpen_fd fname truncate hclosed).1
      have hfilename : (tryOpen fname truncate file).2.filename = file.filename := by
        unfold tryOpen
        dsimp only
        split_ifs
        · split <;> rfl
        · rfl
      rw [openLoop]
      rcases htry : tryOpen fname truncate file with ⟨_ | _, file'⟩
      · rw [htry] at hfirst hfd hfilename
        have hclosed' : file'.fd = none := by simpa using hfd
        obtain ⟨hrest, hname', hfilename'⟩ := ih hclosed'
        exact ⟨hfirst.trans hrest, hname', hfilename'.trans hfilename⟩
      · rw [htry] at hfirst hname hfilename
        exact ⟨hfirst, hname, hfilename⟩

theorem openFile_recedes (name fname : Bytes) (truncate : Bool) (file : FileHelper) :
    Recedes name file.os.fs (file.openFile fname truncate).2.os.fs ∧
      (file.openFile fname truncate).2.OnName fname truncate ∧
      (file.openFile fname truncate).2.filename = fname := by
  have hloop := openLoop_recedes name fname truncate openTries
    (show ({ file.close with filename := fname } : FileHelper).fd = none from rfl)
  rw [openFile]
  rcases h : openLoop fname truncate openTries { file.close with filename := fname } with
    ⟨_ | _, file'⟩ <;>
  · rw [h] at hloop
    exact hloop

/-- A file that has been opened is there. -/
theorem pathExists_openFile {fname : Bytes} {truncate : Bool} {file : FileHelper}
    (h : (file.openFile fname truncate).1 = none) :
    (file.openFile fname truncate).2.os.pathExists fname = true := by
  obtain ⟨-, hname, -⟩ := openFile_recedes fname fname truncate file
  obtain ⟨hfd, -⟩ := file.openFile_fd fname truncate
  obtain ⟨fp, hfp⟩ := Option.ne_none_iff_exists'.mp fun hnone => hfd.mp hnone h
  rw [Os.pathExists, (hname fp hfp).1]
  rfl

/-- A write makes the file of the stream longer, by no more than is written. -/
theorem write_appends (buf : Bytes) (file : FileHelper) :
    ∃ taken : Bytes, taken.length ≤ buf.length ∧
      (file.write buf).2.filename = file.filename ∧
      (file.write buf).2.os.fs = match file.fd with
        | some fp => file.os.fs.append fp taken
        | none => file.os.fs := by
  unfold write
  cases file.fd with
  | none => exact ⟨[], Nat.zero_le _, rfl, rfl⟩
  | some fp =>
      dsimp only
      unfold Os.fwrite
      split
      · exact ⟨_, List.length_take_le' _ _, rfl, rfl⟩
      · exact ⟨buf, le_rfl, rfl, rfl⟩

/-! ## On a system that does not fail -/

/-- A file is open and has its name, and no call will fail. -/
structure Ready (h : FileHelper) : Prop where
  quiet : h.os.Quiet
  stream : ∃ fp, h.fd = some fp ∧ h.os.fs.dir h.filename = some fp
  nullStream : h.nullStream = false

/-- What the file holds once it is open. -/
def openedContent (truncate : Bool) (before : Option Bytes) : Bytes :=
  if truncate then [] else before.getD []

theorem tryOpen_quiet {h : FileHelper} (hquiet : h.os.Quiet) {fname : Bytes} (hname : fname ≠ [])
    (truncate : Bool) :
    ∃ fp os, tryOpen fname truncate h = (true, { h with fd := some fp, os }) ∧ os.Quiet ∧
      os.fs.dir fname = some fp ∧
      os.content = Function.update h.os.content fname
        (some (openedContent truncate (h.os.content fname))) := by
  cases truncate with
  | false =>
      obtain ⟨fp, os, hopen, hos, hdir, hcontent⟩ := Os.fopen_ab hquiet hname
      exact ⟨fp, os, by simp [tryOpen, hopen], hos, hdir, hcontent⟩
  | true =>
      obtain ⟨tmp, os₁, hopen₁, hos₁, hcontent₁⟩ := Os.fopen_wb hquiet hname
      obtain ⟨fp, os, hopen, hos, hdir, hcontent⟩ := Os.fopen_ab hos₁ hname
      refine ⟨fp, os, by simp [tryOpen, hopen₁, hopen], hos, hdir, ?_⟩
      rw [hcontent, hcontent₁]
      simp [openedContent]

theorem openFile_quiet {h : FileHelper} (hquiet : h.os.Quiet) (hnull : h.nullStream = false)
    {fname : Bytes} (hname : fname ≠ []) (truncate : Bool) :
    (h.openFile fname truncate).1 = none ∧ (h.openFile fname truncate).2.Ready ∧
      (h.openFile fname truncate).2.filename = fname ∧
      (h.openFile fname truncate).2.os.content = Function.update h.os.content fname
        (some (openedContent truncate (h.os.content fname))) := by
  obtain ⟨fp, os, htry, hos, hdir, hcontent⟩ :=
    tryOpen_quiet (h := { h.close with filename := fname }) hquiet hname truncate
  rw [openFile, openTries, openLoop, htry]
  exact ⟨rfl, ⟨hos, ⟨fp, rfl, hdir⟩, hnull⟩, rfl, hcontent⟩

theorem write_ready {h : FileHelper} (hready : h.Ready) (buf : Bytes) :
    (h.write buf).1 = none ∧ (h.write buf).2.Ready ∧
      (h.write buf).2.filename = h.filename ∧
      (h.write buf).2.os.content = Function.update h.os.content h.filename
        ((h.os.content h.filename).map (· ++ buf)) := by
  obtain ⟨fp, hfd, hdir⟩ := hready.stream
  obtain ⟨os, hwrite, hos, hdirs, hcontent⟩ := Os.fwrite_quiet hready.quiet hdir buf
  rw [write, hfd]
  dsimp only
  rw [hwrite]
  exact ⟨if_pos rfl, ⟨hos, ⟨fp, rfl, hdirs ▸ hdir⟩, hready.nullStream⟩, rfl, hcontent⟩

theorem size_ready {h : FileHelper} (hready : h.Ready) :
    ∃ os, h.size = (.ok ((h.os.content h.filename).getD []).length, { h with os }) ∧
      Ready { h with os } ∧ os.content = h.os.content := by
  obtain ⟨fp, hfd, hdir⟩ := hready.stream
  have hdata : h.os.content h.filename = some (h.os.fs.data fp) :=
    congrArg (Option.map h.os.fs.data) hdir
  refine ⟨h.os.next, ?_, ⟨Os.quiet_next hready.quiet, ⟨fp, hfd, hdir⟩, hready.nullStream⟩, rfl⟩
  rw [size, hfd]
  dsimp only
  rw [Os.filesize, hready.quiet 0, hdata]
  rfl

/-! ## The empty name -/

theorem fst_tryOpen_nil (truncate : Bool) (h : FileHelper) : (tryOpen [] truncate h).1 = false := by
  have hnone (os : Os) (mode : OpenMode) : (os.fopen [] mode).1 = none := by
    unfold Os.fopen
    split <;> rfl
  unfold tryOpen
  dsimp only
  split
  · split
    · rfl
    · simp [hnone]
  · simp [hnone]

/-- No file has the empty name. -/
theorem openFile_nil (truncate : Bool) (h : FileHelper) : (h.openFile [] truncate).1 ≠ none := by
  have hloop (tries : ℕ) (h : FileHelper) : (openLoop [] truncate tries h).1 = false := by
    induction tries generalizing h with
    | zero => rfl
    | succ tries ih =>
        have htry := fst_tryOpen_nil truncate h
        rw [openLoop]
        split
        · next hopen => simp [hopen] at htry
        · exact ih _
  have hfailed := hloop openTries { h.close with filename := [] }
  rw [openFile]
  split
  · next hopen => simp [hopen] at hfailed
  · simp

end FileHelper

end Structlog
