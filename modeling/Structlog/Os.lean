import Structlog.Common
import Structlog.Lib.FileSystem

/-!
# The file calls of `os.h`

`Os` is a file system together with the calls to come: `faults 0` says how the
next call fails, if it does.  A stream is the inode it is open on.  What has been
written is in the file at once, as it is after the flush in `fclose`.

Most of the lemmas are about a system none of whose calls fails (`Quiet`), and say
what a call does to the content of every name.  The others are about what a call
cannot do even if it fails: but for `fwrite`, none makes a file longer (`Recedes`).
-/

namespace Structlog

open Lib
open FileSystem (Recedes)

/-- A failing call: what `strerror` says of it and, of a write, how many bytes
were written all the same. -/
structure Fault where
  error : Bytes
  written : ℕ := 0

structure Os where
  fs : FileSystem Bytes UInt8
  faults : ℕ → Option Fault
  /-- The text of `errno`. -/
  errno : Bytes

/-- The `mode` of `fopen_s`. -/
inductive OpenMode
  | ab
  | wb

namespace Os

/-- A call has been made. -/
def next (os : Os) : Os := { os with faults := fun k => os.faults (k + 1) }

/-- A call has failed. -/
def fail (error : Bytes) (os : Os) : Os := { os.next with errno := error }

/-- `ENOENT`. -/
def noSuchFile : Bytes := ascii "No such file or directory"

/-- `throw_spdlog_ex(msg, errno)`. -/
def spdlogEx (os : Os) (msg : Bytes) : Thrown := Structlog.spdlogEx (msg ++ ascii ": " ++ os.errno)

/-- `path_exists`. -/
def pathExists (os : Os) (filename : Bytes) : Bool := (os.fs.dir filename).isSome

/-- `fopen_s`; the null stream is `none`. -/
def fopen (filename : Bytes) (mode : OpenMode) (os : Os) : Option ℕ × Os :=
  match os.faults 0 with
  | some fault => (none, os.fail fault.error)
  | none =>
      if filename = [] then (none, os.fail noSuchFile)
      else
        let opened := os.fs.openName filename
        match mode with
        | .ab => (some opened.1, { os.next with fs := opened.2 })
        | .wb => (some opened.1, { os.next with fs := opened.2.setData opened.1 [] })

/-- `fwrite(data, 1, data.size(), fp)`: the number of bytes written. -/
def fwrite (data : Bytes) (fp : ℕ) (os : Os) : ℕ × Os :=
  match os.faults 0 with
  | some fault =>
      let written := data.take fault.written
      (written.length, { os.fail fault.error with fs := os.fs.append fp written })
  | none => (data.length, { os.next with fs := os.fs.append fp data })

/-- `filesize`, by `fstat`. -/
def filesize (fp : ℕ) (os : Os) : Except Thrown ℕ × Os :=
  match os.faults 0 with
  | some fault =>
      let os' := os.fail fault.error
      (.error (os'.spdlogEx (ascii "Failed getting file size from fd")), os')
  | none => (.ok (os.fs.data fp).length, os.next)

/-- `remove`: whether it returned `0`. -/
def remove (filename : Bytes) (os : Os) : Bool × Os :=
  match os.faults 0 with
  | some fault => (false, os.fail fault.error)
  | none =>
      if os.pathExists filename then (true, { os.next with fs := os.fs.remove filename })
      else (false, os.fail noSuchFile)

/-- `remove_if_exists`: whether it returned `0`. -/
def removeIfExists (filename : Bytes) (os : Os) : Bool × Os :=
  if os.pathExists filename then os.remove filename else (true, os)

/-- `rename`: whether it returned `0`. -/
def rename (filename1 filename2 : Bytes) (os : Os) : Bool × Os :=
  match os.faults 0 with
  | some fault => (false, os.fail fault.error)
  | none =>
      if os.pathExists filename1 then
        (true, { os.next with fs := os.fs.rename filename1 filename2 })
      else (false, os.fail noSuchFile)

/-! ## Calls that do not write -/

theorem recedes_fopen (name filename : Bytes) (mode : OpenMode) (os : Os) :
    Recedes name os.fs (os.fopen filename mode).2.fs := by
  unfold Os.fopen
  split
  · exact .refl name os.fs
  · split_ifs
    · exact .refl name os.fs
    · cases mode with
      | ab => exact .openName name os.fs filename
      | wb => exact (Recedes.openName name os.fs filename).trans (.setData_nil name _ _)

theorem recedes_remove (name filename : Bytes) (os : Os) :
    Recedes name os.fs (os.remove filename).2.fs := by
  unfold Os.remove
  split
  · exact .refl name os.fs
  · split_ifs
    · exact .remove name os.fs filename
    · exact .refl name os.fs

theorem recedes_rename {name dst : Bytes} (hdst : name ≠ dst) (src : Bytes) (os : Os) :
    Recedes name os.fs (os.rename src dst).2.fs := by
  unfold Os.rename
  split
  · exact .refl name os.fs
  · split_ifs
    · exact .rename hdst os.fs
    · exact .refl name os.fs

/-- A stream that has been opened is on the file with the name. -/
theorem dir_fopen {filename : Bytes} {mode : OpenMode} {os os' : Os} {fp : ℕ}
    (h : os.fopen filename mode = (some fp, os')) : os'.fs.dir filename = some fp := by
  have hdir := FileSystem.dir_openName os.fs filename
  unfold Os.fopen at h
  split at h
  · cases h
  · split_ifs at h
    · cases h
    · cases mode <;>
      · obtain ⟨hfp, rfl⟩ := Prod.mk.inj h
        obtain rfl := Option.some.inj hfp
        exact hdir

/-- A file opened for writing is empty. -/
theorem data_fopen_wb {filename : Bytes} {os os' : Os} {fp : ℕ}
    (h : os.fopen filename .wb = (some fp, os')) : os'.fs.data fp = [] := by
  unfold Os.fopen at h
  split at h
  · cases h
  · split_ifs at h
    · cases h
    · obtain ⟨hfp, rfl⟩ := Prod.mk.inj h
      obtain rfl := Option.some.inj hfp
      exact Function.update_self ..

/-! ## A system that does not fail -/

/-- No call to come fails but for what it is asked to do. -/
def Quiet (os : Os) : Prop := ∀ k, os.faults k = none

/-- A system without files, none of whose calls will fail. -/
def blank : Os := ⟨.empty, fun _ => none, []⟩

theorem quiet_blank : blank.Quiet := fun _ => rfl

/-- What is under each name. -/
def content (os : Os) : Bytes → Option Bytes := os.fs.content

theorem pathExists_eq (os : Os) (filename : Bytes) :
    os.pathExists filename = (os.content filename).isSome := by
  simp [pathExists, content, FileSystem.content]

theorem quiet_next {os : Os} (h : os.Quiet) : os.next.Quiet := fun k => h (k + 1)

/-- A file opened for appending is there, with the content it had. -/
theorem fopen_ab {os : Os} (h : os.Quiet) {filename : Bytes} (hname : filename ≠ []) :
    ∃ fp os', os.fopen filename .ab = (some fp, os') ∧ os'.Quiet ∧
      os'.fs.dir filename = some fp ∧
      os'.content = Function.update os.content filename (some ((os.content filename).getD [])) := by
  refine ⟨(os.fs.openName filename).1, { os.next with fs := (os.fs.openName filename).2 },
    ?_, quiet_next h, FileSystem.dir_openName os.fs filename, ?_⟩
  · simp [fopen, h 0, hname]
  funext other
  rw [Function.update_apply]
  exact FileSystem.content_openName os.fs filename other

/-- A file opened for writing is there, with no content. -/
theorem fopen_wb {os : Os} (h : os.Quiet) {filename : Bytes} (hname : filename ≠ []) :
    ∃ fp os', os.fopen filename .wb = (some fp, os') ∧ os'.Quiet ∧
      os'.content = Function.update os.content filename (some []) := by
  refine ⟨(os.fs.openName filename).1,
    { os.next with fs := (os.fs.openName filename).2.setData (os.fs.openName filename).1 [] },
    ?_, quiet_next h, ?_⟩
  · simp [fopen, h 0, hname]
  funext other
  have hset := FileSystem.content_setData (FileSystem.dir_openName os.fs filename) [] other
  rw [FileSystem.content_openName] at hset
  rw [Function.update_apply]
  apply hset.trans
  split_ifs <;> rfl

/-- A write goes to the end of the file that the stream is open on. -/
theorem fwrite_quiet {os : Os} (h : os.Quiet) {filename : Bytes} {fp : ℕ}
    (hfp : os.fs.dir filename = some fp) (data : Bytes) :
    ∃ os', os.fwrite data fp = (data.length, os') ∧ os'.Quiet ∧
      os'.fs.dir = os.fs.dir ∧
      os'.content =
        Function.update os.content filename ((os.content filename).map (· ++ data)) := by
  refine ⟨{ os.next with fs := os.fs.append fp data }, ?_, quiet_next h, rfl, ?_⟩
  · rw [fwrite, h 0]
  funext other
  rw [Function.update_apply]
  exact FileSystem.content_append hfp data other

/-- Whether there was something to remove or not, it is gone. -/
theorem remove_quiet {os : Os} (h : os.Quiet) (filename : Bytes) :
    (os.remove filename).2.Quiet ∧
      (os.remove filename).2.content = Function.update os.content filename none := by
  rw [remove, h 0]
  dsimp only
  split_ifs with hexists
  · refine ⟨quiet_next h, ?_⟩
    funext other
    rw [Function.update_apply]
    exact FileSystem.content_remove os.fs filename other
  · refine ⟨quiet_next h, ?_⟩
    rw [pathExists_eq, Bool.not_eq_true, Option.isSome_eq_false_iff, Option.isNone_iff_eq_none]
      at hexists
    exact (Function.update_eq_self_iff.mpr hexists.symm).symm

theorem removeIfExists_quiet {os : Os} (h : os.Quiet) (filename : Bytes) :
    (os.removeIfExists filename).1 = true ∧ (os.removeIfExists filename).2.Quiet ∧
      (os.removeIfExists filename).2.content = Function.update os.content filename none := by
  rw [removeIfExists]
  split_ifs with hexists
  · refine ⟨?_, remove_quiet h filename⟩
    rw [remove, h 0]
    dsimp only
    rw [if_pos hexists]
  · rw [pathExists_eq, Bool.not_eq_true, Option.isSome_eq_false_iff, Option.isNone_iff_eq_none]
      at hexists
    exact ⟨rfl, h, (Function.update_eq_self_iff.mpr hexists.symm).symm⟩

/-- Other names are not touched, whether the call fails or not. -/
theorem dir_removeIfExists (os : Os) {filename other : Bytes} (hne : other ≠ filename) :
    (os.removeIfExists filename).2.fs.dir other = os.fs.dir other := by
  unfold removeIfExists remove
  split_ifs
  · split
    · rfl
    · exact Function.update_of_ne hne ..
  · rfl

theorem rename_quiet {os : Os} (h : os.Quiet) {src dst : Bytes} (hne : src ≠ dst)
    (hsrc : (os.content src).isSome) :
    (os.rename src dst).1 = true ∧ (os.rename src dst).2.Quiet ∧
      (os.rename src dst).2.content =
        Function.update (Function.update os.content dst (os.content src)) src none := by
  rw [rename, h 0]
  dsimp only
  rw [pathExists_eq, if_pos hsrc]
  refine ⟨rfl, quiet_next h, ?_⟩
  funext other
  rw [Function.update_apply, Function.update_apply]
  exact FileSystem.content_rename hne os.fs other

end Os

end Structlog
