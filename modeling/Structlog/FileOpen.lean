import Structlog.FileHelper

/-!
# `open` in the two builds for unix

In the plain build `fopen_s` is one call of the system, and `FileHelper` is about that.  With
`SPDLOG_PREVENT_CHILD_FD` it is `::open` and then `::fdopen`, and says that it has not failed
if `::open` has: the out-parameter is left as it was then.

`FileHandle` is the helper with what the pointers hold, the streams that are open, and whether
`fclose` has been called on something else.
-/

namespace Structlog

open Lib

inductive UnixBuild
  | plain
  | preventChildFd
deriving DecidableEq

/-- What a `FILE *` holds. -/
inductive FilePtr
  | uninitialized
  | null
  | stream (fp : ℕ)
deriving DecidableEq

/-- The stream that a pointer holds. -/
def FilePtr.toOption : FilePtr → Option ℕ
  | .stream fp => some fp
  | _ => none

/-- `::fdopen`; the null stream is `none`. -/
def Os.fdopen (fd : ℕ) (os : Os) : Option ℕ × Os :=
  match os.faults 0 with
  | some fault => (none, os.fail fault.error)
  | none => (some fd, os.next)

structure FileHandle where
  fd : FilePtr
  filename : Bytes
  os : Os
  /-- The streams that are open. -/
  streams : List ℕ
  /-- `fclose` has been called on something that is not an open stream. -/
  strayClose : Bool

namespace FileHandle

def initial (os : Os) : FileHandle := ⟨.null, [], os, [], false⟩

def fclose (fp : FilePtr) (h : FileHandle) : FileHandle :=
  match fp with
  | .stream fp =>
      if fp ∈ h.streams then { h with streams := h.streams.erase fp }
      else { h with strayClose := true }
  | _ => { h with strayClose := true }

def close (h : FileHandle) : FileHandle :=
  if h.fd = .null then h else { h.fclose h.fd with fd := .null }

/-- `fopen_s`: whether it says that it has failed, and what it leaves in the out-parameter.
`::open` with `O_CREAT` does to the file what `fopen` does. -/
def fopenS (build : UnixBuild) (filename : Bytes) (mode : OpenMode) (fp : FilePtr)
    (h : FileHandle) : Bool × FilePtr × FileHandle :=
  match build with
  | .plain =>
      match h.os.fopen filename mode with
      | (none, os) => (true, .null, { h with os })
      | (some fp, os) => (false, .stream fp, { h with os, streams := fp :: h.streams })
  | .preventChildFd =>
      match h.os.fopen filename mode with
      | (none, os) => (false, fp, { h with os })
      | (some fd, os) =>
          match os.fdopen fd with
          | (none, os) => (true, .null, { h with os })
          | (some fp, os) => (false, .stream fp, { h with os, streams := fp :: h.streams })

/-- The last step of a pass: `!fopen_s(&fd_, fname, mode)`. -/
def append (build : UnixBuild) (fname : Bytes) (h : FileHandle) : Bool × FileHandle :=
  let (failed, fd, h) := h.fopenS build fname .ab h.fd
  (!failed, { h with fd })

/-- One pass of the loop in `open`: whether it returns. -/
def tryOpen (build : UnixBuild) (fname : Bytes) (truncate : Bool) (h : FileHandle) :
    Bool × FileHandle :=
  if truncate then
    match h.fopenS build fname .wb .uninitialized with
    | (true, _, h) => (false, h)
    | (false, tmp, h) => (h.fclose tmp).append build fname
  else h.append build fname

def openLoop (build : UnixBuild) (fname : Bytes) (truncate : Bool) :
    ℕ → FileHandle → Bool × FileHandle
  | 0, h => (false, h)
  | tries + 1, h =>
      match tryOpen build fname truncate h with
      | (true, h') => (true, h')
      | (false, h') => openLoop build fname truncate tries h'

def openFile (build : UnixBuild) (fname : Bytes) (truncate : Bool) (h : FileHandle) :
    Outcome FileHandle :=
  match openLoop build fname truncate FileHelper.openTries { h.close with filename := fname } with
  | (true, h') => (none, h')
  | (false, h') =>
      (some (h'.os.spdlogEx (ascii "Failed opening file " ++ h'.filename ++ ascii " for writing")),
        h')

end FileHandle

/-! ## The calls of the system -/

namespace Os

/-- The stream that the calls in `fopen_s` open. -/
def openStream (build : UnixBuild) (filename : Bytes) (mode : OpenMode) (os : Os) :
    Option ℕ × Os :=
  match build with
  | .plain => os.fopen filename mode
  | .preventChildFd =>
      match os.fopen filename mode with
      | (none, os) => (none, os)
      | (some fd, os) => os.fdopen fd

/-- The stream that a try opens for `fd_`. -/
def tryStream (build : UnixBuild) (fname : Bytes) (truncate : Bool) (os : Os) : Option ℕ × Os :=
  if truncate then
    match os.openStream build fname .wb with
    | (none, os) => (none, os)
    | (some _, os) => os.openStream build fname .ab
  else os.openStream build fname .ab

/-- No try opens a stream. -/
def EveryTryFails (build : UnixBuild) (fname : Bytes) (truncate : Bool) : ℕ → Os → Prop
  | 0, _ => True
  | tries + 1, os =>
      (os.tryStream build fname truncate).1 = none ∧
        EveryTryFails build fname truncate tries (os.tryStream build fname truncate).2

/-- What is opened in a try, each on the system as it is then. -/
def tryCalls (build : UnixBuild) (fname : Bytes) (truncate : Bool) (os : Os) :
    List (OpenMode × Os) :=
  if truncate then
    match os.openStream build fname .wb with
    | (none, _) => [(.wb, os)]
    | (some _, os') => [(.wb, os), (.ab, os')]
  else [(.ab, os)]

/-- What is opened in the tries up to the first that succeeds. -/
def openCalls (build : UnixBuild) (fname : Bytes) (truncate : Bool) :
    ℕ → Os → List (OpenMode × Os)
  | 0, _ => []
  | tries + 1, os =>
      os.tryCalls build fname truncate ++
        match os.tryStream build fname truncate with
        | (some _, _) => []
        | (none, os') => openCalls build fname truncate tries os'

/-- Every `::open` in these calls returns a descriptor. -/
def Descriptors (fname : Bytes) (calls : List (OpenMode × Os)) : Prop :=
  ∀ call ∈ calls, (call.2.fopen fname call.1).1.isSome = true

instance (fname : Bytes) (calls : List (OpenMode × Os)) : Decidable (Descriptors fname calls) :=
  inferInstanceAs (Decidable (∀ call ∈ calls, _))

theorem dir_openStream {build : UnixBuild} {filename : Bytes} {mode : OpenMode} {os os' : Os}
    {fp : ℕ} (h : os.openStream build filename mode = (some fp, os')) :
    os'.fs.dir filename = some fp := by
  cases build with
  | plain => exact dir_fopen h
  | preventChildFd =>
      rw [openStream] at h
      split at h
      · cases h
      · next fd os₁ hopen =>
          have hdir := dir_fopen hopen
          rw [fdopen] at h
          split at h
          · cases h
          · obtain ⟨hfd, rfl⟩ := Prod.mk.inj h
            rw [← hfd]
            exact hdir

end Os

namespace FileHandle

variable {build : UnixBuild} {fname : Bytes} {truncate : Bool}

/-! ## The plain build -/

/-- A stream that has just been opened. -/
theorem fclose_opened (fp : ℕ) (os : Os) (h : FileHandle) :
    ({ h with os, streams := fp :: h.streams } : FileHandle).fclose (.stream fp) =
      { h with os } := by
  rw [fclose]
  dsimp only
  rw [if_pos List.mem_cons_self, List.erase_cons_head]

/-- What `FileHelper` keeps of a helper. -/
def toHelper (h : FileHandle) : FileHelper := ⟨h.fd.toOption, h.filename, h.os, false⟩

theorem toHelper_close (h : FileHandle) : h.close.toHelper = h.toHelper.close := by
  rw [close]
  split_ifs with hnull
  · rw [FileHelper.close, toHelper, hnull]
    rfl
  · rcases h with ⟨_ | _ | fp, filename, os, streams, strayClose⟩
    · rfl
    · rfl
    · unfold fclose
      dsimp only
      split_ifs <;> rfl

theorem toHelper_append (fname : Bytes) (h : FileHandle) :
    ((h.append .plain fname).1, (h.append .plain fname).2.toHelper) =
      h.toHelper.tryOpen fname false := by
  have hos : h.toHelper.os = h.os := rfl
  rw [append, fopenS, FileHelper.tryOpen]
  dsimp only
  rw [if_neg Bool.false_ne_true, hos]
  rcases h.os.fopen fname .ab with ⟨_ | fp, os⟩ <;> rfl

theorem toHelper_tryOpen (fname : Bytes) (truncate : Bool) (h : FileHandle) :
    ((h.tryOpen .plain fname truncate).1, (h.tryOpen .plain fname truncate).2.toHelper) =
      h.toHelper.tryOpen fname truncate := by
  cases truncate with
  | false => exact toHelper_append fname h
  | true =>
      have hos : h.toHelper.os = h.os := rfl
      rw [tryOpen, fopenS, FileHelper.tryOpen, if_pos rfl, if_pos rfl, hos]
      dsimp only
      rcases h.os.fopen fname .wb with ⟨_ | tmp, os⟩
      · rfl
      · dsimp only
        rw [fclose_opened]
        exact toHelper_append fname { h with os }

theorem toHelper_openLoop (fname : Bytes) (truncate : Bool) (tries : ℕ) (h : FileHandle) :
    ((h.openLoop .plain fname truncate tries).1,
        (h.openLoop .plain fname truncate tries).2.toHelper) =
      h.toHelper.openLoop fname truncate tries := by
  induction tries generalizing h with
  | zero => rfl
  | succ tries ih =>
      have htry := toHelper_tryOpen fname truncate h
      rw [openLoop, FileHelper.openLoop, ← htry]
      rcases h.tryOpen .plain fname truncate with ⟨_ | _, h'⟩
      · exact ih h'
      · rfl

/-- In the plain build this is `FileHelper`. -/
theorem openFile_plain (fname : Bytes) (truncate : Bool) (h : FileHandle) :
    (h.openFile .plain fname truncate).within toHelper = h.toHelper.openFile fname truncate := by
  have hloop := toHelper_openLoop fname truncate FileHelper.openTries
    { h.close with filename := fname }
  have hstart : toHelper { h.close with filename := fname } =
      { h.toHelper.close with filename := fname } := by
    rw [← toHelper_close]
    rfl
  rw [hstart] at hloop
  rw [openFile, FileHelper.openFile, ← hloop]
  rcases openLoop .plain fname truncate FileHelper.openTries
    { h.close with filename := fname } with ⟨_ | _, h'⟩ <;> rfl

/-! ## Where every descriptor is returned -/

/-- The build or the system spares `fopen_s` its slip. -/
def Spared (build : UnixBuild) (fname : Bytes) (calls : List (OpenMode × Os)) : Prop :=
  build = .plain ∨ Os.Descriptors fname calls

/-- `fopen_s` then says whether it has failed, and leaves a null pointer if so. -/
theorem fopenS_spared {mode : OpenMode} {h : FileHandle} {rest : List (OpenMode × Os)}
    (hspared : Spared build fname ((mode, h.os) :: rest)) (fp : FilePtr) :
    h.fopenS build fname mode fp =
      match h.os.openStream build fname mode with
      | (none, os) => (true, .null, { h with os })
      | (some fp, os) => (false, .stream fp, { h with os, streams := fp :: h.streams }) := by
  cases build with
  | plain => rfl
  | preventChildFd =>
      have hdescriptor : (h.os.fopen fname mode).1.isSome = true :=
        (hspared.resolve_left nofun) _ List.mem_cons_self
      rw [fopenS, Os.openStream]
      rcases hopen : h.os.fopen fname mode with ⟨_ | fd, os⟩
      · rw [hopen] at hdescriptor
        cases hdescriptor
      · rfl

theorem append_spared {h : FileHandle} (hclosed : h.fd = .null)
    (hspared : Spared build fname [(.ab, h.os)]) :
    h.append build fname =
      match h.os.openStream build fname .ab with
      | (none, os) => (false, { h with os })
      | (some fp, os) =>
          (true, { h with fd := .stream fp, os, streams := fp :: h.streams }) := by
  rw [append, fopenS_spared hspared]
  rcases h.os.openStream build fname .ab with ⟨_ | fp, os⟩
  · simp [hclosed]
  · rfl

theorem tryOpen_spared {h : FileHandle} (hclosed : h.fd = .null)
    (hspared : Spared build fname (h.os.tryCalls build fname truncate)) :
    h.tryOpen build fname truncate =
      match h.os.tryStream build fname truncate with
      | (none, os) => (false, { h with os })
      | (some fp, os) =>
          (true, { h with fd := .stream fp, os, streams := fp :: h.streams }) := by
  cases truncate with
  | false => exact append_spared hclosed hspared
  | true =>
      rw [tryOpen, Os.tryStream, if_pos rfl, if_pos rfl]
      rw [Os.tryCalls, if_pos rfl] at hspared
      rcases hopen : h.os.openStream build fname .wb with ⟨_ | tmp, os⟩ <;> rw [hopen] at hspared
      · rw [fopenS_spared hspared, hopen]
      · have hlater : Spared build fname [(.ab, os)] := hspared.imp_right fun hall call hcall =>
          hall call (List.mem_cons_of_mem _ hcall)
        rw [fopenS_spared hspared, hopen]
        dsimp only
        rw [fclose_opened]
        exact append_spared (h := { h with os }) hclosed hlater

/-- A try that opens a stream opens it on the file with the name. -/
theorem dir_tryStream {os os' : Os} {fp : ℕ}
    (h : os.tryStream build fname truncate = (some fp, os')) : os'.fs.dir fname = some fp := by
  rw [Os.tryStream] at h
  split_ifs at h
  · split at h
    · cases h
    · exact Os.dir_openStream h
  · exact Os.dir_openStream h

/-- What is left by the loop: no file if every try fails, and else one that is open. -/
theorem openLoop_spared (tries : ℕ) {h : FileHandle} (hclosed : h.fd = .null)
    (hspared : Spared build fname (h.os.openCalls build fname truncate tries)) :
    let looped := h.openLoop build fname truncate tries
    looped.2.filename = h.filename ∧ looped.2.strayClose = h.strayClose ∧
      (looped.1 = false ↔ h.os.EveryTryFails build fname truncate tries) ∧
      (looped.1 = false → looped.2.fd = .null) ∧
      (looped.1 = true → ∃ fp ∈ looped.2.streams,
        looped.2.fd = .stream fp ∧ looped.2.os.fs.dir fname = some fp) := by
  induction tries generalizing h with
  | zero =>
      exact ⟨rfl, rfl, iff_of_true rfl trivial, fun _ => hclosed,
        fun hreturns => absurd hreturns Bool.false_ne_true⟩
  | succ tries ih =>
      rw [Os.openCalls] at hspared
      have hnow : Spared build fname (h.os.tryCalls build fname truncate) :=
        hspared.imp_right fun hall call hcall => hall call (List.mem_append_left _ hcall)
      rw [openLoop, Os.EveryTryFails, tryOpen_spared hclosed hnow]
      rcases htry : h.os.tryStream build fname truncate with ⟨_ | fp, os⟩
      · have hlater : Spared build fname (os.openCalls build fname truncate tries) :=
          hspared.imp_right fun hall call hcall =>
            hall call (List.mem_append_right _ (by rw [htry]; exact hcall))
        rw [and_iff_right rfl]
        exact ih (h := { h with os }) hclosed hlater
      · refine ⟨rfl, rfl, ?_, ?_, ?_⟩
        · exact iff_of_false Bool.false_ne_true.symm fun hfails =>
            Option.some_ne_none fp hfails.1
        · exact fun hfails => absurd hfails Bool.false_ne_true.symm
        · exact fun _ => ⟨fp, List.mem_cons_self, rfl, dir_tryStream htry⟩

/-! ## Where one is not -/

theorem strayClose_fopenS (build : UnixBuild) (fname : Bytes) (mode : OpenMode) (fp : FilePtr)
    (h : FileHandle) :
    (h.fopenS build fname mode fp).2.2.strayClose = h.strayClose := by
  unfold fopenS
  split
  · split <;> rfl
  · split
    · rfl
    · split <;> rfl

theorem strayClose_append (h : FileHandle) :
    (h.append build fname).2.strayClose = h.strayClose :=
  strayClose_fopenS build fname .ab h.fd h

theorem strayClose_fclose (fp : FilePtr) {h : FileHandle} (hstray : h.strayClose = true) :
    (h.fclose fp).strayClose = true := by
  unfold fclose
  split
  · split_ifs
    · exact hstray
    · rfl
  · rfl

theorem strayClose_tryOpen (build : UnixBuild) (fname : Bytes) (truncate : Bool) {h : FileHandle}
    (hstray : h.strayClose = true) :
    (h.tryOpen build fname truncate).2.strayClose = true := by
  rw [tryOpen]
  split_ifs
  · have hopen := strayClose_fopenS build fname .wb .uninitialized h
    generalize h.fopenS build fname .wb .uninitialized = opened at hopen ⊢
    rcases opened with ⟨_ | _, tmp, h'⟩
    · exact (strayClose_append _).trans (strayClose_fclose tmp (hopen.trans hstray))
    · exact hopen.trans hstray
  · exact (strayClose_append h).trans hstray

/-- What has been closed wrongly is not made good. -/
theorem strayClose_openLoop (tries : ℕ) {h : FileHandle} (hstray : h.strayClose = true) :
    (h.openLoop build fname truncate tries).2.strayClose = true := by
  induction tries generalizing h with
  | zero => exact hstray
  | succ tries ih =>
      have htry := strayClose_tryOpen build fname truncate hstray
      rw [openLoop]
      generalize h.tryOpen build fname truncate = tried at htry ⊢
      rcases tried with ⟨_ | _, h'⟩
      · exact ih htry
      · exact htry

/-- Without a descriptor `fopen_s` changes nothing and says that it has not failed. -/
theorem fopenS_missed {mode : OpenMode} {h : FileHandle}
    (hmissed : (h.os.fopen fname mode).1 = none) (fp : FilePtr) :
    h.fopenS .preventChildFd fname mode fp =
      (false, fp, { h with os := (h.os.fopen fname mode).2 }) := by
  rw [fopenS]
  generalize h.os.fopen fname mode = opened at hmissed ⊢
  obtain ⟨fd, os⟩ := opened
  obtain rfl : fd = none := hmissed
  rfl

theorem append_missed {h : FileHandle} (hclosed : h.fd = .null)
    (hmissed : (h.os.fopen fname .ab).1 = none) :
    (h.append .preventChildFd fname).1 = true ∧
      (h.append .preventChildFd fname).2.fd = .null := by
  rw [append, fopenS_missed hmissed]
  exact ⟨rfl, hclosed⟩

/-- A try in which a descriptor is missing ends the loop without a file, or closes what has not
been opened. -/
theorem tryOpen_missed {h : FileHandle} (hclosed : h.fd = .null)
    (hmissed : ¬ Os.Descriptors fname (h.os.tryCalls .preventChildFd fname truncate)) :
    (h.tryOpen .preventChildFd fname truncate).2.strayClose = true ∨
      (h.tryOpen .preventChildFd fname truncate).1 = true ∧
        (h.tryOpen .preventChildFd fname truncate).2.fd = .null := by
  have hnone {mode : OpenMode} {os : Os} (h : ¬ (os.fopen fname mode).1.isSome = true) :
      (os.fopen fname mode).1 = none := by simpa using h
  rw [tryOpen]
  cases truncate with
  | false =>
      right
      refine append_missed hclosed (hnone fun hsome => hmissed fun call hcall => ?_)
      rw [List.mem_singleton.mp hcall]
      exact hsome
  | true =>
      rw [if_pos rfl]
      by_cases hfirst : (h.os.fopen fname .wb).1.isSome = true
      · right
        have hspared : Spared .preventChildFd fname [(.wb, h.os)] := .inr fun call hcall => by
          rw [List.mem_singleton.mp hcall]
          exact hfirst
        rw [fopenS_spared hspared]
        rw [Os.tryCalls, if_pos rfl] at hmissed
        rcases hopen : h.os.openStream .preventChildFd fname .wb with ⟨_ | tmp, os⟩ <;>
          rw [hopen] at hmissed
        · exact absurd (hspared.resolve_left nofun) hmissed
        · dsimp only
          rw [fclose_opened]
          refine append_missed hclosed (hnone fun hsome => hmissed fun call hcall => ?_)
          rcases List.mem_cons.mp hcall with rfl | hcall
          · exact hfirst
          · rw [List.mem_singleton.mp hcall]
            exact hsome
      · left
        rw [fopenS_missed (hnone hfirst)]
        exact (strayClose_append _).trans rfl

theorem openLoop_missed (tries : ℕ) {h : FileHandle} (hclosed : h.fd = .null)
    (hmissed : ¬ Os.Descriptors fname (h.os.openCalls .preventChildFd fname truncate tries)) :
    (h.openLoop .preventChildFd fname truncate tries).2.strayClose = true ∨
      (h.openLoop .preventChildFd fname truncate tries).1 = true ∧
        (h.openLoop .preventChildFd fname truncate tries).2.fd = .null := by
  induction tries generalizing h with
  | zero => exact absurd (fun call hcall => absurd hcall List.not_mem_nil) hmissed
  | succ tries ih =>
      rw [Os.openCalls] at hmissed
      rw [openLoop]
      by_cases hnow : Os.Descriptors fname (h.os.tryCalls .preventChildFd fname truncate)
      · rw [tryOpen_spared hclosed (.inr hnow)]
        rcases htry : h.os.tryStream .preventChildFd fname truncate with ⟨_ | fp, os⟩ <;>
          rw [htry] at hmissed
        · refine ih (h := { h with os }) hclosed fun hlater => hmissed fun call hcall => ?_
          exact (List.mem_append.mp hcall).elim (hnow call) (hlater call)
        · refine absurd (fun call hcall => ?_) hmissed
          rw [List.append_nil] at hcall
          exact hnow call hcall
      · have htry := tryOpen_missed hclosed hnow
        generalize h.tryOpen .preventChildFd fname truncate = tried at htry ⊢
        rcases tried with ⟨_ | _, h'⟩
        · exact .inl (strayClose_openLoop tries (htry.resolve_right fun hboth =>
            Bool.false_ne_true hboth.1))
        · exact htry

/-! ## Opening or throwing -/

/-- `fd_` is null or an open stream, and nothing else has been closed. -/
structure WellFormed (h : FileHandle) : Prop where
  fd : h.fd = .null ∨ ∃ fp ∈ h.streams, h.fd = .stream fp
  strayClose : h.strayClose = false

theorem wellFormed_initial (os : Os) : (initial os).WellFormed := ⟨.inl rfl, rfl⟩

/-- What `open` promises, of what it has left. -/
structure OpensOrThrows (build : UnixBuild) (fname : Bytes) (truncate : Bool) (h : FileHandle)
    (opened : Outcome FileHandle) : Prop where
  returns : opened.1 = none → opened.2.filename = fname ∧
    ∃ fp ∈ opened.2.streams, opened.2.fd = .stream fp ∧ opened.2.os.fs.dir fname = some fp
  throws : opened.1 ≠ none → opened.2.fd = .null
  fails : h.os.EveryTryFails build fname truncate FileHelper.openTries → opened.1 ≠ none
  closes : opened.2.strayClose = false

theorem WellFormed.close {h : FileHandle} (hwell : h.WellFormed) :
    h.close.fd = .null ∧ h.close.strayClose = false ∧ h.close.os = h.os := by
  rw [FileHandle.close]
  split_ifs with hnull
  · exact ⟨hnull, hwell.strayClose, rfl⟩
  · obtain ⟨fp, hmem, hfd⟩ := hwell.fd.resolve_left hnull
    rw [hfd, fclose]
    dsimp only
    rw [if_pos hmem]
    exact ⟨rfl, hwell.strayClose, rfl⟩

/-- `open` keeps its promise exactly in the plain build, or if every `::open` that it comes to
returns a descriptor. -/
theorem file_helper_opens_or_throws_iff (build : UnixBuild) (fname : Bytes) (truncate : Bool)
    {h : FileHandle} (hwell : h.WellFormed) :
    OpensOrThrows build fname truncate h (h.openFile build fname truncate) ↔
      build = .plain ∨
        Os.Descriptors fname (h.os.openCalls build fname truncate FileHelper.openTries) := by
  obtain ⟨hclosed, hstray, hos⟩ := hwell.close
  rw [openFile]
  constructor
  · intro hopens
    by_contra hmissed
    obtain ⟨hbuild, hmissed⟩ := not_or.mp hmissed
    obtain rfl : build = .preventChildFd := by cases build <;> tauto
    rw [← hos] at hmissed
    have hlooped := openLoop_missed FileHelper.openTries
      (h := { h.close with filename := fname }) hclosed hmissed
    generalize openLoop .preventChildFd fname truncate FileHelper.openTries
      { h.close with filename := fname } = looped at hopens hlooped
    rcases looped with ⟨_ | _, h'⟩
    · have hbad := hlooped.resolve_right fun hboth => Bool.false_ne_true hboth.1
      exact absurd (hopens.closes.symm.trans hbad) Bool.false_ne_true
    · obtain ⟨-, fp, -, hfd, -⟩ := hopens.returns rfl
      rcases hlooped with hbad | ⟨-, hnull⟩
      · exact absurd (hopens.closes.symm.trans hbad) Bool.false_ne_true
      · exact absurd (hnull.symm.trans hfd) FilePtr.noConfusion
  · intro hspared
    rw [← hos] at hspared
    obtain ⟨hfilename, hcloses, hfails, hnull, hopen⟩ := openLoop_spared FileHelper.openTries
      (h := { h.close with filename := fname }) hclosed hspared
    generalize openLoop build fname truncate FileHelper.openTries
      { h.close with filename := fname } = looped at hfilename hcloses hfails hnull hopen
    rcases looped with ⟨_ | _, h'⟩
    · exact ⟨fun hreturns => absurd hreturns (Option.some_ne_none _), fun _ => hnull rfl,
        fun _ => Option.some_ne_none _, hcloses.trans hstray⟩
    · refine ⟨fun _ => ⟨hfilename, hopen rfl⟩, fun hthrew => absurd rfl hthrew, fun hevery => ?_,
        hcloses.trans hstray⟩
      rw [← hos] at hevery
      exact absurd (hfails.mpr hevery) Bool.false_ne_true.symm

/-- The calls that fail. -/
def failing (calls : List ℕ) : Os :=
  { Os.blank with
    faults := fun k => if k ∈ calls then some ⟨ascii "Too many open files", 0⟩ else none }

/-- The first `::fdopen` fails, and the second try opens the file. -/
theorem file_helper_opens_again :
    let h := initial (failing [1])
    let opened := h.openFile .preventChildFd (ascii "a.txt") true
    OpensOrThrows .preventChildFd (ascii "a.txt") true h opened ∧ opened.1 = none ∧
      opened.2.fd = .stream 0 := by
  refine ⟨?_, by decide, by decide⟩
  exact (file_helper_opens_or_throws_iff .preventChildFd (ascii "a.txt") true
    (wellFormed_initial (failing [1]))).mpr (.inr (by decide))

/-- Where no `::open` succeeds, `open` returns at its first try and has no file, and with
`truncate` it has closed a pointer that holds nothing. -/
theorem file_helper_returns_without_file :
    let h := initial (failing (List.range 20))
    (∀ truncate, h.os.EveryTryFails .preventChildFd (ascii "a.txt") truncate
      FileHelper.openTries) ∧
      (h.openFile .preventChildFd (ascii "a.txt") false).1 = none ∧
      (h.openFile .preventChildFd (ascii "a.txt") false).2.fd = .null ∧
      (h.openFile .preventChildFd (ascii "a.txt") true).1 = none ∧
      (h.openFile .preventChildFd (ascii "a.txt") true).2.fd = .null ∧
      (h.openFile .preventChildFd (ascii "a.txt") true).2.strayClose = true ∧
      ∀ truncate, ¬ OpensOrThrows .preventChildFd (ascii "a.txt") truncate h
        (h.openFile .preventChildFd (ascii "a.txt") truncate) := by
  intro h
  have hevery (truncate : Bool) : h.os.EveryTryFails .preventChildFd (ascii "a.txt") truncate
      FileHelper.openTries := by
    cases truncate <;> simp only [Os.EveryTryFails, FileHelper.openTries] <;> decide
  have hreturns (truncate : Bool) :
      (h.openFile .preventChildFd (ascii "a.txt") truncate).1 = none := by
    cases truncate <;> decide
  refine ⟨hevery, hreturns false, by decide, hreturns true, by decide, by decide, ?_⟩
  intro truncate hopens
  exact hopens.fails (hevery truncate) (hreturns truncate)

end FileHandle

end Structlog
