import Structlog.RotatingSize

/-!
# `rotating_file_sink` when calls fail

Any call to the system may fail here.  `rotate_` closes the file, and leaves by one of four
ways: a new file is open; it is not, and the final `reopen` throws; or a file could not be
renamed, and the base file is open again with the counter at zero, or not open with the
counter as it was (`Rotated`).

So a sink without a file has a counter above `max_size_` (`Guarded`): the next message
rotates again before it is written.  The counter goes on growing meanwhile, and the
invariant holds as long as it does not wrap around.
-/

namespace Structlog

open Lib

/-! ## The file when calls fail -/

namespace FileHelper

/-- A try to open for appending finds what is there, or leaves it. -/
theorem tryOpen_append (fname : Bytes) (h : FileHelper) :
    let tried := tryOpen fname false h
    (tried.1 = true → ∃ fp, tried.2.fd = some fp ∧
      tried.2.os.fs.data fp = (h.os.content fname).getD []) ∧
    (tried.1 = false → tried.2.os.content = h.os.content) := by
  intro tried
  cases hfault : h.os.faults 0 with
  | some fault =>
      have htried : tried = (false, { h with fd := none, os := h.os.fail fault.error }) := by
        simp [tried, tryOpen, Os.fopen, hfault]
      rw [htried]
      exact ⟨fun hopen => absurd hopen Bool.false_ne_true, fun _ => rfl⟩
  | none =>
      by_cases hname : fname = []
      · have htried : tried = (false, { h with fd := none, os := h.os.fail Os.noSuchFile }) := by
          simp [tried, tryOpen, Os.fopen, hfault, hname]
        rw [htried]
        exact ⟨fun hopen => absurd hopen Bool.false_ne_true, fun _ => rfl⟩
      · have htried : tried = (true, { h with
            fd := some (h.os.fs.openName fname).1
            os := { h.os.next with fs := (h.os.fs.openName fname).2 } }) := by
          simp [tried, tryOpen, Os.fopen, hfault, hname]
        have hdir := FileSystem.dir_openName h.os.fs fname
        have hcontent := FileSystem.content_openName h.os.fs fname fname
        rw [if_pos rfl, FileSystem.content, hdir] at hcontent
        rw [htried]
        refine ⟨fun _ => ⟨_, rfl, Option.some.inj hcontent⟩, ?_⟩
        exact fun hclosed => absurd hclosed.symm Bool.false_ne_true

theorem openLoop_append (fname : Bytes) (tries : ℕ) {h h' : FileHelper}
    (hopen : openLoop fname false tries h = (true, h')) :
    ∃ fp, h'.fd = some fp ∧ h'.os.fs.data fp = (h.os.content fname).getD [] := by
  induction tries generalizing h with
  | zero => cases hopen
  | succ tries ih =>
      obtain ⟨hfound, hleft⟩ := tryOpen_append fname h
      rw [openLoop] at hopen
      split at hopen
      · next h₁ htry =>
          obtain rfl : h₁ = h' := congrArg Prod.snd hopen
          rw [htry] at hfound
          exact hfound rfl
      · next h₁ htry =>
          rw [htry] at hleft
          obtain ⟨fp, hfd, hdata⟩ := ih hopen
          exact ⟨fp, hfd, by rw [hdata, hleft rfl]⟩

theorem openFile_append {fname : Bytes} {h h' : FileHelper}
    (hopen : h.openFile fname false = (none, h')) :
    ∃ fp, h'.fd = some fp ∧ h'.os.fs.data fp = (h.os.content fname).getD [] := by
  rw [openFile] at hopen
  split at hopen
  · next h₁ hloop =>
      obtain rfl : h₁ = h' := congrArg Prod.snd hopen
      exact openLoop_append fname openTries (h := { h.close with filename := fname }) hloop
  · cases hopen

end FileHelper

namespace RotatingFileSink

variable {s : RotatingFileSink}

/-- There is a file to write to, or the next message rotates first; and nothing has been
written without a file. -/
structure Guarded (s : RotatingFileSink) : Prop where
  open_or_full : s.fileHelper.fd ≠ none ∨ s.maxSize < s.currentSize
  nullStream : s.fileHelper.nullStream = false

/-- The bytes that are logged. -/
def logged (msgs : List (Except Thrown Bytes)) : ℕ := ((texts msgs).map List.length).sum

/-! ## The ways out of `rotate_` -/

/-- What is left of a sink by a rotation. -/
inductive Rotated (s : RotatingFileSink) : Outcome RotatingFileSink → Prop
  | opened (file : FileHelper) (hfd : file.fd ≠ none)
      (hnull : file.nullStream = s.fileHelper.nullStream) :
      Rotated s (none, { s with fileHelper := file })
  | closed (thrown : Thrown) (file : FileHelper) (hfd : file.fd = none)
      (hnull : file.nullStream = s.fileHelper.nullStream) :
      Rotated s (some thrown, { s with fileHelper := file })
  | restarted (thrown : Thrown) (file : FileHelper) (hfd : file.fd ≠ none)
      (hnull : file.nullStream = s.fileHelper.nullStream) :
      Rotated s (some thrown, { s with fileHelper := file, currentSize := 0 })

/-- `reopen` opens a file, or throws and leaves none. -/
theorem reopen_cases (h : s.fileHelper.fd = none) :
    ∃ file, file.nullStream = s.fileHelper.nullStream ∧
      (s.onFile (FileHelper.reopen true) = (none, { s with fileHelper := file }) ∧
          file.fd ≠ none ∨
        ∃ thrown, s.onFile (FileHelper.reopen true) = (some thrown, { s with fileHelper := file }) ∧
          file.fd = none) := by
  have hfile : ((s.fileHelper.reopen true).2.fd = none ↔ (s.fileHelper.reopen true).1 ≠ none) ∧
      (s.fileHelper.reopen true).2.nullStream = s.fileHelper.nullStream := by
    unfold FileHelper.reopen
    split_ifs
    · exact ⟨iff_of_true h (Option.some_ne_none _), rfl⟩
    · exact FileHelper.openFile_fd ..
  obtain ⟨hfd, hnull⟩ := hfile
  refine ⟨_, hnull, ?_⟩
  rw [onFile]
  rcases hreopen : s.fileHelper.reopen true with ⟨_ | thrown, file⟩
  · rw [hreopen] at hfd
    exact .inl ⟨rfl, fun hnone => hfd.mp hnone rfl⟩
  · rw [hreopen] at hfd
    exact .inr ⟨thrown, rfl, hfd.mpr (Option.some_ne_none _)⟩

theorem renamingFailed_cases (h : s.fileHelper.fd = none) (src target : Bytes) :
    ∃ thrown s', s.renamingFailed src target = (some thrown, s') ∧
      Rotated s (some thrown, s') := by
  rw [renamingFailed]
  obtain ⟨file, hnull, ⟨hreopen, hfd⟩ | ⟨thrown, hreopen, hfd⟩⟩ := reopen_cases h
  · rw [hreopen, Outcome.andThen_returned rfl]
    exact ⟨_, _, rfl, .restarted _ file hfd hnull⟩
  · rw [hreopen, Outcome.andThen_threw rfl]
    exact ⟨thrown, _, rfl, .closed thrown file hfd hnull⟩

/-- The file before the rotation is not part of a `Rotated`. -/
theorem Rotated.of_file {file : FileHelper} {o : Outcome RotatingFileSink}
    (h : Rotated { s with fileHelper := file } o)
    (hnull : file.nullStream = s.fileHelper.nullStream) : Rotated s o := by
  cases h with
  | opened file' hfd hnull' => exact .opened file' hfd (hnull'.trans hnull)
  | closed thrown file' hfd hnull' => exact .closed thrown file' hfd (hnull'.trans hnull)
  | restarted thrown file' hfd hnull' => exact .restarted thrown file' hfd (hnull'.trans hnull)

/-- The loop ends with the file closed, or throws. -/
theorem rotateLoop_cases (n : ℕ) (h : s.fileHelper.fd = none) :
    (∃ os, rotateLoop n s = (none, s.setOs os)) ∨
      ∃ thrown s', rotateLoop n s = (some thrown, s') ∧ Rotated s (some thrown, s') := by
  have hrename (s : RotatingFileSink) (src target : Bytes) :
      ∃ renamed os, s.renameFile src target = (renamed, s.setOs os) := ⟨_, _, rfl⟩
  induction n generalizing s with
  | zero => exact .inl ⟨s.os, rfl⟩
  | succ n ih =>
      have hrest (os : Os) : (∃ os', rotateLoop n (s.setOs os) = (none, s.setOs os')) ∨
          ∃ thrown s', rotateLoop n (s.setOs os) = (some thrown, s') ∧
            Rotated s (some thrown, s') := by
        rcases ih (s := s.setOs os) h with hdone | ⟨thrown, s', hloop, hrotated⟩
        · exact .inl hdone
        · exact .inr ⟨thrown, s', hloop, hrotated.of_file rfl⟩
      rw [rotateLoop]
      split_ifs
      · dsimp only
        obtain ⟨renamed, os, hfirst⟩ := hrename s (calcFilename s.baseFilename n)
          (calcFilename s.baseFilename (n + 1))
        rw [hfirst]
        cases renamed with
        | true => exact hrest os
        | false =>
            -- the second attempt
            obtain ⟨renamed, os', hsecond⟩ := hrename (s.setOs os) (calcFilename s.baseFilename n)
              (calcFilename s.baseFilename (n + 1))
            dsimp only
            rw [hsecond]
            cases renamed with
            | true => exact hrest os'
            | false =>
                obtain ⟨thrown, s', hfailed, hrotated⟩ := renamingFailed_cases
                  (s := s.setOs os') h (calcFilename s.baseFilename n)
                  (calcFilename s.baseFilename (n + 1))
                exact .inr ⟨thrown, s', hfailed, hrotated.of_file rfl⟩
      · exact hrest s.os

/-- `rotate_` ends in one of the ways. -/
theorem rotate_rotated (s : RotatingFileSink) : Rotated s s.rotate := by
  rw [rotate]
  rcases rotateLoop_cases (s := { s with fileHelper := s.fileHelper.close }) s.maxFiles rfl with
    ⟨os, hloop⟩ | ⟨thrown, s', hloop, hrotated⟩
  · rw [hloop, Outcome.andThen_returned rfl]
    obtain ⟨file, hnull, ⟨hreopen, hfd⟩ | ⟨thrown, hreopen, hfd⟩⟩ :=
      reopen_cases (s := setOs { s with fileHelper := s.fileHelper.close } os) rfl
    · rw [hreopen]
      exact .opened file hfd hnull
    · rw [hreopen]
      exact .closed thrown file hfd hnull
  · rw [hloop, Outcome.andThen_threw rfl]
    exact hrotated.of_file rfl

/-! ## Runs -/

theorem guarded_write (hfd : s.fileHelper.fd ≠ none) (hnull : s.fileHelper.nullStream = false)
    (buf : Bytes) : (s.onFile (FileHelper.write buf)).2.Guarded := by
  obtain ⟨hsame, hwritten⟩ := FileHelper.write_fd buf s.fileHelper
  refine ⟨.inl ?_, ?_⟩
  · rw [← hsame] at hfd
    exact hfd
  · have hnot : ¬ (s.fileHelper.write buf).2.nullStream = true := by
      rw [hwritten, hnull]
      simp [hfd]
    exact Bool.eq_false_iff.mpr hnot

/-- The step: the invariant is kept as long as the counter does not wrap around. -/
theorem Guarded.step (h : s.Guarded) {formatted : Bytes}
    (hbytes : s.currentSize + formatted.length < sizeT) :
    (s.step (.ok formatted)).Guarded ∧
      (s.step (.ok formatted)).currentSize ≤ s.currentSize + formatted.length := by
  rw [RotatingFileSink.step, sinkIt]
  dsimp only
  rw [Nat.mod_eq_of_lt hbytes]
  split_ifs with hfull
  · have hrotated := rotate_rotated { s with currentSize := s.currentSize + formatted.length }
    generalize RotatingFileSink.rotate _ = o at hrotated
    cases hrotated with
    | opened file hfd hnull =>
        exact ⟨guarded_write hfd (hnull.trans h.nullStream) formatted, Nat.le_add_left ..⟩
    | closed thrown file hfd hnull =>
        exact ⟨⟨.inr hfull, hnull.trans h.nullStream⟩, le_rfl⟩
    | restarted thrown file hfd hnull =>
        exact ⟨⟨.inl hfd, hnull.trans h.nullStream⟩, Nat.zero_le _⟩
  · -- the counter is not above the limit, so there is a file
    have hfd := h.open_or_full.resolve_right (by omega)
    rw [Outcome.andThen_returned rfl]
    exact ⟨guarded_write
      (s := { s with currentSize := s.currentSize + formatted.length }) hfd h.nullStream formatted,
      le_rfl⟩

theorem logged_cons (msg : Except Thrown Bytes) (rest : List (Except Thrown Bytes)) :
    logged (msg :: rest) = (msg.toOption.map List.length).getD 0 + logged rest := by
  unfold logged texts
  cases msg with
  | error thrown =>
      rw [List.filterMap_cons_none rfl]
      exact (Nat.zero_add _).symm
  | ok formatted =>
      rw [List.filterMap_cons_some (f := Except.toOption) rfl, List.map_cons, List.sum_cons]
      rfl

/-- The run. -/
theorem Guarded.run (h : s.Guarded) {msgs : List (Except Thrown Bytes)}
    (hbytes : s.currentSize + logged msgs < sizeT) :
    (∀ p ∈ Runs.trace RotatingFileSink.step s msgs, p.1.Guarded) ∧
      (Runs.run RotatingFileSink.step s msgs).Guarded := by
  induction msgs generalizing s with
  | nil => exact ⟨nofun, h⟩
  | cons msg rest ih =>
      rw [logged_cons] at hbytes
      have hnext : (s.step msg).Guarded ∧ (s.step msg).currentSize + logged rest < sizeT := by
        cases msg with
        | error thrown =>
            have hsame : s.step (.error thrown) = s := rfl
            rw [hsame]
            exact ⟨h, lt_of_le_of_lt (by omega) hbytes⟩
        | ok formatted =>
            simp only [Except.toOption, Option.map_some, Option.getD_some] at hbytes
            have hfirst : s.currentSize + formatted.length < sizeT := by omega
            obtain ⟨hguarded, hcounter⟩ := h.step hfirst
            exact ⟨hguarded, by omega⟩
      obtain ⟨htrace, hrun⟩ := ih hnext.1 hnext.2
      exact ⟨List.forall_mem_cons.mpr ⟨h, htrace⟩, hrun⟩

/-! ## The constructor -/

theorem takeSize_guarded {rotateOnOpen : Bool} {fp : ℕ} (hfd : s.fileHelper.fd = some fp)
    (hnull : s.fileHelper.nullStream = false) (hnew : (takeSize rotateOnOpen s).1 = none) :
    (takeSize rotateOnOpen s).2.Guarded ∧
      (takeSize rotateOnOpen s).2.currentSize ≤ (s.os.fs.data fp).length := by
  have hsize : s.fileHelper.size =
      ((s.os.filesize fp).1, { s.fileHelper with os := (s.os.filesize fp).2 }) := by
    simp only [FileHelper.size, hfd]
  cases hfault : s.os.faults 0 with
  | some fault =>
      unfold takeSize at hnew
      unfold Os.filesize at hsize
      rw [hsize, hfault] at hnew
      cases hnew
  | none =>
      have hle := Nat.mod_le (s.os.fs.data fp).length sizeT
      have htake : takeSize rotateOnOpen s =
          let s' := { s with
            fileHelper := { s.fileHelper with os := s.os.next }
            currentSize := (s.os.fs.data fp).length % sizeT }
          if rotateOnOpen ∧ 0 < s'.currentSize then s'.rotate else (none, s') := by
        unfold takeSize
        unfold Os.filesize at hsize
        rw [hsize, hfault]
      rw [htake] at hnew ⊢
      dsimp only at hnew ⊢
      split_ifs at hnew ⊢
      · have hrotated := rotate_rotated { s with
          fileHelper := { s.fileHelper with os := s.os.next }
          currentSize := (s.os.fs.data fp).length % sizeT }
        generalize RotatingFileSink.rotate _ = o at hrotated hnew
        cases hrotated with
        | opened file hfd' hnull' => exact ⟨⟨.inl hfd', hnull'.trans hnull⟩, hle⟩
        | closed | restarted => cases hnew
      · exact ⟨⟨.inl (by simp [hfd]), hnull⟩, hle⟩

/-- A sink that has been constructed has a file, and counts no more than the bytes that have
been in it. -/
theorem new_guarded {base : Bytes} {maxSize maxFiles : ℕ} {rotateOnOpen : Bool} {os : Os}
    (hnew : (new base maxSize maxFiles rotateOnOpen os).1 = none) :
    (new base maxSize maxFiles rotateOnOpen os).2.Guarded ∧
      (new base maxSize maxFiles rotateOnOpen os).2.currentSize ≤
        ((os.content base).getD []).length := by
  have hbase : calcFilename base 0 = base := rfl
  obtain ⟨-, hnull⟩ := FileHelper.openFile_fd base false (FileHelper.initial os)
  rw [new, onFile, hbase] at hnew ⊢
  rcases hopen : (FileHelper.initial os).openFile base false with ⟨_ | thrown, file⟩
  · obtain ⟨fp, hfd, hdata⟩ := FileHelper.openFile_append hopen
    have hfound : file.os.fs.data fp = (os.content base).getD [] := hdata
    rw [hopen] at hnew hnull
    rw [← hfound]
    exact takeSize_guarded (s := ⟨base, maxSize, maxFiles, 0, file⟩) hfd hnull hnew
  · rw [hopen] at hnew
    cases hnew

/-- As long as fewer than `2 ^ 64` bytes are found and logged, every state of a run has a file
to write to or a counter above the limit, and nothing is written without a file. -/
theorem rotating_file_sink_guarded (base : Bytes) (maxSize maxFiles : ℕ) (rotateOnOpen : Bool)
    (os : Os) (hnew : (new base maxSize maxFiles rotateOnOpen os).1 = none)
    (msgs : List (Except Thrown Bytes))
    (hbytes : ((os.content base).getD []).length + logged msgs < sizeT) :
    let s := (new base maxSize maxFiles rotateOnOpen os).2
    (∀ p ∈ Runs.trace step s msgs, p.1.Guarded) ∧ (Runs.run step s msgs).Guarded := by
  intro s
  obtain ⟨hguarded, hfound⟩ := new_guarded hnew
  exact hguarded.run (lt_of_le_of_lt (Nat.add_le_add_right hfound _) hbytes)

/-- The first `fopen` fails, and every call after the constructor. -/
theorem rotating_file_sink_guarded_faults :
    let os : Os := { threeBytes with
      faults := fun k => if k = 0 ∨ 3 ≤ k then some ⟨ascii "Input/output error", 0⟩ else none }
    let s := (new (ascii "log.txt") 4 1 false os).2
    let msgs := [.ok (ascii "a"), .ok (ascii "b"), .ok (ascii "c")]
    (Runs.run step s msgs).fileHelper.fd = none ∧
      (∀ p ∈ Runs.trace step s msgs, p.1.Guarded) ∧ (Runs.run step s msgs).Guarded := by
  intro os s msgs
  exact ⟨by decide, rotating_file_sink_guarded (ascii "log.txt") 4 1 false os (by decide) msgs
    (by decide)⟩

/-! ## Counting beyond the range of a `size_t` -/

/-- All calls to come fail. -/
def AllFail (os : Os) : Prop := ∀ k, os.faults k ≠ none

theorem openLoop_allFail (fname : Bytes) (tries : ℕ) {h : FileHelper} (hclosed : h.fd = none)
    (hfail : AllFail h.os) :
    ∃ os, FileHelper.openLoop fname true tries h = (false, { h with os }) ∧ AllFail os := by
  induction tries generalizing h with
  | zero => exact ⟨h.os, rfl, hfail⟩
  | succ tries ih =>
      obtain ⟨fault, hfault⟩ := Option.ne_none_iff_exists'.mp (hfail 0)
      have htry : FileHelper.tryOpen fname true h =
          (false, { h with os := h.os.fail fault.error }) := by
        simp [FileHelper.tryOpen, Os.fopen, hfault]
      obtain ⟨os, hloop, hos⟩ := ih (h := { h with os := h.os.fail fault.error }) hclosed
        fun k => hfail (k + 1)
      exact ⟨os, by rw [FileHelper.openLoop, htry]; exact hloop, hos⟩

/-- A closed file cannot be opened again. -/
theorem reopen_allFail (file : FileHelper) (hfail : AllFail file.os) :
    ∃ thrown os, file.close.reopen true = (some thrown, { file.close with os }) ∧
      AllFail os := by
  unfold FileHelper.reopen
  split_ifs
  · exact ⟨_, file.os, rfl, hfail⟩
  · obtain ⟨os, hloop, hos⟩ := openLoop_allFail file.filename FileHelper.openTries
      (h := file.close) rfl hfail
    have hloop' : FileHelper.openLoop file.close.filename true FileHelper.openTries
        { file.close.close with filename := file.close.filename } =
          (false, { file.close with os }) := hloop
    refine ⟨os.spdlogEx (ascii "Failed opening file " ++ file.filename ++ ascii " for writing"),
      os, ?_, hos⟩
    rw [FileHelper.openFile, hloop']
    rfl

/-- A sink without old files, all of whose calls fail. -/
structure Failing (maxSize : ℕ) (s : RotatingFileSink) : Prop where
  maxSize_eq : s.maxSize = maxSize
  maxFiles_eq : s.maxFiles = 0
  allFail : AllFail s.os

/-- It rotates for each message, in vain, and goes on counting. -/
theorem Failing.step {maxSize : ℕ} (h : s.Failing maxSize) {formatted : Bytes}
    (hfull : maxSize < s.currentSize + formatted.length)
    (hbytes : s.currentSize + formatted.length < sizeT) :
    (s.step (.ok formatted)).Failing maxSize ∧ (s.step (.ok formatted)).fileHelper.fd = none ∧
      (s.step (.ok formatted)).currentSize = s.currentSize + formatted.length := by
  obtain ⟨thrown, os, hreopen, hos⟩ := reopen_allFail s.fileHelper h.allFail
  have hrotate : RotatingFileSink.rotate
      { s with currentSize := s.currentSize + formatted.length } =
        (some thrown, { s with
          currentSize := s.currentSize + formatted.length
          fileHelper := { s.fileHelper.close with os } }) := by
    rw [rotate, h.maxFiles_eq, rotateLoop, Outcome.andThen_returned rfl, onFile, hreopen]
    rfl
  have hstep : s.step (.ok formatted) = { s with
      currentSize := s.currentSize + formatted.length
      fileHelper := { s.fileHelper.close with os } } := by
    rw [RotatingFileSink.step, sinkIt]
    dsimp only
    have hrotates : s.maxSize < s.currentSize + formatted.length := by
      rw [h.maxSize_eq]
      exact hfull
    rw [Nat.mod_eq_of_lt hbytes, if_pos hrotates, hrotate, Outcome.andThen_threw rfl,
      Outcome.andThen_threw rfl]
  rw [hstep]
  exact ⟨⟨h.maxSize_eq, h.maxFiles_eq, hos⟩, rfl, rfl⟩

theorem logged_replicate (n : ℕ) (formatted : Bytes) :
    logged (List.replicate n (.ok formatted)) = n * formatted.length := by
  induction n with
  | zero => exact (Nat.zero_mul _).symm
  | succ n ih =>
      rw [List.replicate_succ, logged_cons, ih, Nat.succ_mul, Nat.add_comm]
      rfl

/-- The run over messages of one byte. -/
theorem Failing.run {maxSize : ℕ} (h : s.Failing maxSize) (hfull : maxSize ≤ s.currentSize)
    (byte : UInt8) (n : ℕ) (hbytes : s.currentSize + (n + 1) < sizeT) :
    let after := Runs.run RotatingFileSink.step s (List.replicate (n + 1) (.ok [byte]))
    after.Failing maxSize ∧ after.fileHelper.fd = none ∧
      after.currentSize = s.currentSize + (n + 1) := by
  induction n generalizing s with
  | zero => exact h.step (Nat.lt_succ_of_le hfull) hbytes
  | succ n ih =>
      have hfirst : s.currentSize + [byte].length < sizeT := lt_of_le_of_lt (by simp) hbytes
      have hgrows : maxSize < s.currentSize + [byte].length := Nat.lt_succ_of_le hfull
      obtain ⟨hnext, -, hcounter⟩ := h.step hgrows hfirst
      rw [List.length_singleton] at hcounter
      obtain ⟨hafter, hfd, hcount⟩ := ih hnext (by omega) (by omega)
      exact ⟨hafter, hfd, hcount.trans (by omega)⟩

/-- A counter that wraps around lets a message pass to a closed file. -/
theorem step_wraps (hfd : s.fileHelper.fd = none) {formatted : Bytes}
    (hwraps : (s.currentSize + formatted.length) % sizeT = 0) :
    s.step (.ok formatted) =
      { s with currentSize := 0, fileHelper := { s.fileHelper with nullStream := true } } := by
  rw [RotatingFileSink.step, sinkIt]
  dsimp only
  rw [hwraps, if_neg (Nat.not_lt_zero _), Outcome.andThen_returned rfl, onFile]
  simp only [FileHelper.write, hfd]
  rfl

/-- The system without a fault in the first calls, and nothing but faults after them. -/
def failingAfter (calls : ℕ) (os : Os) : Os :=
  { os with faults := fun k => if k < calls then none else some ⟨ascii "Input/output error", 0⟩ }

/-- Three bytes are found, and no file can be opened after that: the counter wraps around
before `2 ^ 64` bytes are logged, and the last message is written without a file. -/
theorem rotating_file_sink_unguarded :
    let opened := new (ascii "log.txt") 3 0 false (failingAfter 2 threeBytes)
    let msgs : List (Except Thrown Bytes) := List.replicate (sizeT - 3) (.ok (ascii "a"))
    opened.1 = none ∧ logged msgs < sizeT ∧
      (Runs.run step opened.2 msgs).fileHelper.fd = none ∧
      ¬ (Runs.run step opened.2 msgs).maxSize < (Runs.run step opened.2 msgs).currentSize ∧
      (Runs.run step opened.2 msgs).fileHelper.nullStream = true := by
  intro opened msgs
  have hfaults : opened.2.os.faults =
      fun k => (failingAfter 2 threeBytes).faults (k + 1 + 1) := rfl
  have hfailing : opened.2.Failing 3 := by
    refine ⟨rfl, rfl, fun k => ?_⟩
    rw [hfaults]
    simp [failingAfter]
  have hfound : opened.2.currentSize = 3 := by decide
  have hsize : sizeT = 18446744073709551616 := rfl
  obtain ⟨n, hn⟩ : ∃ n, sizeT - 3 = n + 1 + 1 := ⟨sizeT - 5, by omega⟩
  have hmsgs : msgs = List.replicate (n + 1) (.ok [charByte 'a']) ++ [.ok (ascii "a")] := by
    change List.replicate (sizeT - 3) (Except.ok (ascii "a")) = _
    rw [hn, List.replicate_succ']
    rfl
  obtain ⟨-, hfd, hcount⟩ := hfailing.run hfound.ge (charByte 'a') n (by omega)
  have hlast : Runs.run step opened.2 msgs = step
      (Runs.run step opened.2 (List.replicate (n + 1) (.ok [charByte 'a']))) (.ok (ascii "a")) := by
    rw [hmsgs, Runs.run, List.foldl_append]
    rfl
  have hone : (ascii "a").length = 1 := rfl
  have hall : 3 + (n + 1) + 1 = sizeT := by omega
  rw [step_wraps hfd (by rw [hcount, hone, hfound, hall, Nat.mod_self])] at hlast
  refine ⟨by decide, ?_, ?_, ?_, ?_⟩
  · rw [logged_replicate, hone]
    omega
  · rw [hlast]
    exact hfd
  · rw [hlast]
    exact Nat.not_lt_zero _
  · rw [hlast]

end RotatingFileSink

end Structlog
