import Structlog.CircularQ
import Structlog.FileHelper
import Structlog.Lib.Generations
import Structlog.Lib.Runs

/-!
# `rotating_file_sink`

The files of the sink are generations: index `0` is the file being written,
index `max_files` the oldest one kept, and the names are told apart by the index
(`calcFilename_injective`).  Seen through the names, the loop of `rotate_` is a
shift of the generations, which loses at most the oldest.

The invariant of a run is `Keeps`: the files there are, from the oldest to the
one being written, hold a final part of all that there was and all that has been
logged, divided into files between messages only.

The formatter is not part of the sink here: a message is the text that
`formatter_->format` makes of it, or what that throws.
-/

namespace Structlog

open Lib

structure RotatingFileSink where
  baseFilename : Bytes
  maxSize : ℕ
  maxFiles : ℕ
  currentSize : ℕ
  fileHelper : FileHelper

namespace RotatingFileSink

/-- `calc_filename`. -/
def calcFilename (filename : Bytes) (index : ℕ) : Bytes :=
  if index = 0 then filename
  else
    let (basename, ext) := FileHelper.splitByExtension filename
    basename ++ ascii "." ++ decimal index ++ ext

/-- The file helper is part of the sink. -/
def onFile (act : FileHelper → Outcome FileHelper) (s : RotatingFileSink) :
    Outcome RotatingFileSink :=
  (act s.fileHelper).within fun fileHelper => { s with fileHelper }

abbrev os (s : RotatingFileSink) : Os := s.fileHelper.os

def setOs (s : RotatingFileSink) (os : Os) : RotatingFileSink :=
  { s with fileHelper := { s.fileHelper with os } }

/-- `rename_file_`: remove the target, then rename. -/
def renameFile (srcFilename targetFilename : Bytes) (s : RotatingFileSink) :
    Bool × RotatingFileSink :=
  let (_, os) := s.os.remove targetFilename
  let (renamed, os) := os.rename srcFilename targetFilename
  (renamed, s.setOs os)

/-- The file could not be renamed in two attempts. -/
def renamingFailed (src target : Bytes) (s : RotatingFileSink) : Outcome RotatingFileSink :=
  (s.onFile (FileHelper.reopen true)).andThen fun s =>
    (some (s.os.spdlogEx (ascii "rotating_file_sink: failed renaming " ++ src ++ ascii " to " ++
      target)), { s with currentSize := 0 })

/-- The loop in `rotate_`, from index `i` down. -/
def rotateLoop : ℕ → RotatingFileSink → Outcome RotatingFileSink
  | 0, s => (none, s)
  | i + 1, s =>
      let src := calcFilename s.baseFilename i
      if s.os.pathExists src then
        let target := calcFilename s.baseFilename (i + 1)
        match s.renameFile src target with
        | (true, s) => rotateLoop i s
        | (false, s) =>
            match s.renameFile src target with
            | (true, s) => rotateLoop i s
            | (false, s) => s.renamingFailed src target
      else rotateLoop i s

/-- `rotate_`. -/
def rotate (s : RotatingFileSink) : Outcome RotatingFileSink :=
  (rotateLoop s.maxFiles { s with fileHelper := s.fileHelper.close }).andThen fun s =>
    s.onFile (FileHelper.reopen true)

/-- The constructor once the file is open. -/
def takeSize (rotateOnOpen : Bool) (s : RotatingFileSink) : Outcome RotatingFileSink :=
  match s.fileHelper.size with
  | (.error thrown, fileHelper) => (some thrown, { s with fileHelper })
  | (.ok size, fileHelper) =>
      let s := { s with fileHelper, currentSize := size % sizeT }
      if rotateOnOpen ∧ 0 < s.currentSize then s.rotate else (none, s)

/-- The constructor.  Where it throws there is no sink. -/
def new (baseFilename : Bytes) (maxSize maxFiles : ℕ) (rotateOnOpen : Bool) (os : Os) :
    Outcome RotatingFileSink :=
  let s : RotatingFileSink := ⟨baseFilename, maxSize, maxFiles, 0, FileHelper.initial os⟩
  (s.onFile fun file => file.openFile (calcFilename baseFilename 0) false).andThen
    (takeSize rotateOnOpen)

/-- `sink_it_`. -/
def sinkIt (text : Except Thrown Bytes) (s : RotatingFileSink) : Outcome RotatingFileSink :=
  match text with
  | .error thrown => (some thrown, s)
  | .ok formatted =>
      let s := { s with currentSize := (s.currentSize + formatted.length) % sizeT }
      (if s.maxSize < s.currentSize then
          s.rotate.andThen fun s => (none, { s with currentSize := formatted.length })
        else (none, s) : Outcome RotatingFileSink).andThen fun s =>
          s.onFile (FileHelper.write formatted)

/-- A call of `sink_it_`, whether it throws or not. -/
def step (s : RotatingFileSink) (text : Except Thrown Bytes) : RotatingFileSink :=
  (s.sinkIt text).2

/-! ## The names -/

/-- The index tells the names apart. -/
theorem calcFilename_injective (filename : Bytes) :
    Function.Injective (calcFilename filename) := by
  have hlength (i : ℕ) (hi : i ≠ 0) : (calcFilename filename i).length ≠ filename.length := by
    have happend := congrArg List.length (FileHelper.splitByExtension_append filename)
    rw [List.length_append] at happend
    rw [calcFilename, if_neg hi]
    simp only [List.length_append, length_decimal]
    have hdot : (ascii ".").length = 1 := rfl
    omega
  intro i j hij
  by_cases hi : i = 0 <;> by_cases hj : j = 0
  · rw [hi, hj]
  · exact absurd (congrArg List.length (hij.symm.trans (by rw [hi]; rfl))) (hlength j hj)
  · exact absurd (congrArg List.length (hij.trans (by rw [hj]; rfl))) (hlength i hi)
  · rw [calcFilename, calcFilename, if_neg hi, if_neg hj] at hij
    simp only [List.append_assoc, List.append_cancel_left_eq, List.append_cancel_right_eq] at hij
    exact decimal_injective hij

/-- What is under the name with each index. -/
def generation (base : Bytes) (os : Os) : ℕ → Option Bytes := os.content ∘ calcFilename base

/-- The files there are, from index `max_files` down. -/
def existing (base : Bytes) (maxFiles : ℕ) (os : Os) : List Bytes :=
  Generations.oldestFirst (generation base os) maxFiles

theorem pathExists_calcFilename (base : Bytes) (os : Os) (i : ℕ) :
    os.pathExists (calcFilename base i) = (generation base os i).isSome := os.pathExists_eq _

theorem generation_update {base : Bytes} {os os' : Os} {i : ℕ} {x : Option Bytes}
    (h : os'.content = Function.update os.content (calcFilename base i) x) :
    generation base os' = Function.update (generation base os) i x := by
  rw [generation, h, Function.update_comp_eq_of_injective _ (calcFilename_injective base)]
  rfl

/-! ## Rotation on a system that does not fail -/

theorem renameFile_quiet {s : RotatingFileSink} (hquiet : s.os.Quiet) {base : Bytes} {i : ℕ}
    (hsrc : (generation base s.os i).isSome) :
    ∃ os, s.renameFile (calcFilename base i) (calcFilename base (i + 1)) = (true, s.setOs os) ∧
      os.Quiet ∧ generation base os = Generations.moveUp (generation base s.os) i := by
  have hne : calcFilename base i ≠ calcFilename base (i + 1) :=
    fun h => absurd (calcFilename_injective base h) (by omega)
  obtain ⟨hremoved, hcontent⟩ := Os.remove_quiet hquiet (calcFilename base (i + 1))
  have hsame : (s.os.remove (calcFilename base (i + 1))).2.content (calcFilename base i) =
      generation base s.os i := by
    rw [hcontent, Function.update_of_ne hne]
    rfl
  obtain ⟨htrue, hrenamed, hcontent'⟩ := Os.rename_quiet hremoved hne (hsame ▸ hsrc)
  rw [hsame, hcontent, Function.update_idem] at hcontent'
  refine ⟨((s.os.remove (calcFilename base (i + 1))).2.rename (calcFilename base i)
    (calcFilename base (i + 1))).2, Prod.ext htrue rfl, hrenamed, ?_⟩
  rw [Generations.moveUp, if_pos hsrc, generation, hcontent',
    Function.update_comp_eq_of_injective _ (calcFilename_injective base),
    Function.update_comp_eq_of_injective _ (calcFilename_injective base)]
  rfl

/-- The loop is a shift. -/
theorem rotateLoop_quiet {s : RotatingFileSink} (hquiet : s.os.Quiet) (n : ℕ) :
    ∃ os, rotateLoop n s = (none, s.setOs os) ∧ os.Quiet ∧
      generation s.baseFilename os = Generations.shift n (generation s.baseFilename s.os) := by
  induction n generalizing s with
  | zero => exact ⟨s.os, rfl, hquiet, rfl⟩
  | succ n ih =>
      rw [rotateLoop, pathExists_calcFilename]
      by_cases hsrc : (generation s.baseFilename s.os n).isSome
      · obtain ⟨os₁, hrename, hos₁, hmoved⟩ := renameFile_quiet hquiet hsrc
        obtain ⟨os, hloop, hos, hshift⟩ := ih (s := s.setOs os₁) hos₁
        refine ⟨os, ?_, hos, ?_⟩
        · rw [if_pos hsrc]
          dsimp only
          rw [hrename]
          exact hloop
        · exact hshift.trans (congrArg (Generations.shift n) hmoved)
      · obtain ⟨os, hloop, hos, hshift⟩ := ih hquiet
        refine ⟨os, ?_, hos, ?_⟩
        · rw [if_neg hsrc]
          exact hloop
        · rw [hshift, Generations.shift, Generations.moveUp, if_neg hsrc]

/-- A sink with its file open under the base name. -/
structure Open (s : RotatingFileSink) : Prop where
  ready : s.fileHelper.Ready
  filename : s.fileHelper.filename = s.baseFilename
  name_ne : s.baseFilename ≠ []

/-- After a rotation the file being written is a new one and, of the others, at
most the oldest is gone, and that only if there were `max_files` of them. -/
theorem rotate_quiet {s : RotatingFileSink} (hopen : s.Open) :
    ∃ file k, s.rotate = (none, { s with fileHelper := file }) ∧
      (k = 0 ∨ k = 1 ∧ (generation s.baseFilename s.os s.maxFiles).isSome = true) ∧
      Open { s with fileHelper := file } ∧
      existing s.baseFilename s.maxFiles file.os =
        (existing s.baseFilename s.maxFiles s.os).drop k ++ [[]] := by
  obtain ⟨os, hloop, hos, hshift⟩ := rotateLoop_quiet
    (s := { s with fileHelper := s.fileHelper.close }) hopen.ready.quiet s.maxFiles
  obtain ⟨hok, hready, hname, hcontent⟩ := FileHelper.openFile_quiet
    (h := { s.fileHelper.close with os }) hos hopen.ready.nullStream
    (show s.fileHelper.filename ≠ [] from hopen.filename ▸ hopen.name_ne) true
  obtain ⟨k, hlost, hk⟩ :=
    Generations.oldestFirst_shift (generation s.baseFilename s.os) s.maxFiles []
  refine ⟨_, k, ?_, hlost, ⟨hready, hname.trans hopen.filename, hopen.name_ne⟩, ?_⟩
  · rw [rotate, hloop, Outcome.andThen_returned rfl, onFile]
    refine (congrArg (Outcome.within · _) ?_).trans (Prod.ext hok rfl)
    exact if_neg (hopen.filename ▸ hopen.name_ne)
  · have hbase : s.fileHelper.filename = calcFilename s.baseFilename 0 := hopen.filename
    rw [hbase] at hcontent
    rw [existing, hbase, generation_update hcontent]
    have hsame : generation s.baseFilename os =
        Generations.shift s.maxFiles (generation s.baseFilename s.os) := hshift
    calc Generations.oldestFirst (Function.update (generation s.baseFilename os) 0 (some []))
          s.maxFiles
        = Generations.oldestFirst (Function.update
            (Generations.shift s.maxFiles (generation s.baseFilename s.os)) 0 (some []))
            s.maxFiles := by rw [hsame]
      _ = _ := hk

/-! ## Runs -/

/-- The files there are hold a final part of `chunks`, and `base` is open. -/
structure Keeps (base : Bytes) (maxFiles : ℕ) (chunks : List Bytes) (s : RotatingFileSink) :
    Prop where
  isOpen : s.Open
  base_eq : s.baseFilename = base
  maxFiles_eq : s.maxFiles = maxFiles
  history : ∃ lost kept : List (List Bytes), (lost ++ kept).flatten = chunks ∧
    existing base maxFiles s.os = kept.map List.flatten

variable {base : Bytes} {maxFiles : ℕ} {chunks : List Bytes} {s : RotatingFileSink}

/-- The counter does not matter. -/
theorem Keeps.setCurrentSize (h : Keeps base maxFiles chunks s) (currentSize : ℕ) :
    Keeps base maxFiles chunks { s with currentSize } :=
  ⟨⟨h.isOpen.ready, h.isOpen.filename, h.isOpen.name_ne⟩, h.base_eq, h.maxFiles_eq, h.history⟩

/-- The file being written is the last of those there are. -/
theorem existing_last {s : RotatingFileSink} (hopen : s.Open) :
    ∃ older content, s.os.content s.baseFilename = some content ∧
      ∀ os x, os.content = Function.update s.os.content s.baseFilename (some x) →
        existing s.baseFilename s.maxFiles os = older ++ [x] := by
  obtain ⟨fp, hfd, hdir⟩ := hopen.ready.stream
  rw [hopen.filename] at hdir
  obtain ⟨older, holder⟩ :=
    Generations.oldestFirst_update_zero (generation s.baseFilename s.os) s.maxFiles
  refine ⟨older, s.os.fs.data fp, ?_, fun os x hos => ?_⟩
  · exact (congrArg (Option.map s.os.fs.data) hdir)
  · have hgen := generation_update (i := 0) (show os.content =
        Function.update s.os.content (calcFilename s.baseFilename 0) _ from hos)
    rw [existing, hgen, holder]
    rfl

theorem Keeps.rotate (h : Keeps base maxFiles chunks s) :
    ∃ s', s.rotate = (none, s') ∧ Keeps base maxFiles chunks s' := by
  obtain ⟨file, k, hrotate, -, hopen, hexisting⟩ := rotate_quiet h.isOpen
  obtain ⟨lost, kept, hchunks, hkept⟩ := h.history
  refine ⟨_, hrotate, hopen, h.base_eq, h.maxFiles_eq, lost ++ kept.take k,
    kept.drop k ++ [[]], ?_, ?_⟩
  · rw [← hchunks, List.append_assoc, ← List.append_assoc (kept.take k), List.take_append_drop]
    simp
  · rw [h.base_eq, h.maxFiles_eq, hkept] at hexisting
    calc existing base maxFiles file.os
        = (kept.map List.flatten).drop k ++ [[]] := hexisting
      _ = _ := by simp [List.map_drop]

theorem Keeps.write (h : Keeps base maxFiles chunks s) (buf : Bytes) :
    ∃ s', s.onFile (FileHelper.write buf) = (none, s') ∧
      Keeps base maxFiles (chunks ++ [buf]) s' := by
  obtain ⟨hok, hready, hname, hcontent⟩ := FileHelper.write_ready h.isOpen.ready buf
  obtain ⟨older, content, hbefore, hafter⟩ := existing_last h.isOpen
  rw [h.isOpen.filename, hbefore] at hcontent
  obtain ⟨lost, kept, hchunks, hkept⟩ := h.history
  have hnow : kept.map List.flatten = older ++ [content] := by
    rw [← hkept, ← h.base_eq, ← h.maxFiles_eq]
    exact hafter s.os content (Function.update_eq_self_iff.mpr hbefore.symm).symm
  obtain ⟨olderKept, last, rfl, hlast⟩ : ∃ olderKept last, kept = olderKept ++ [last] ∧
      olderKept.map List.flatten = older ∧ last.flatten = content := by
    obtain ⟨olderKept, rest, rfl, hmap, hrest⟩ := List.map_eq_append_iff.mp hnow
    obtain ⟨last, rfl, hcontent⟩ := List.map_eq_singleton_iff.mp hrest
    exact ⟨olderKept, last, rfl, hmap, hcontent⟩
  refine ⟨_, Prod.ext hok rfl, ⟨hready, hname.trans h.isOpen.filename, h.isOpen.name_ne⟩,
    h.base_eq, h.maxFiles_eq, lost, olderKept ++ [last ++ [buf]], ?_, ?_⟩
  · rw [← hchunks]
    simp
  · rw [← h.base_eq, ← h.maxFiles_eq]
    calc existing s.baseFilename s.maxFiles _
        = older ++ [content ++ buf] := hafter _ _ hcontent
      _ = (olderKept ++ [last ++ [buf]]).map List.flatten := by
          rw [← hlast.1, ← hlast.2]
          simp

/-- The message goes to the end of the last file, rotated or not. -/
theorem Keeps.sinkIt (h : Keeps base maxFiles chunks s) (formatted : Bytes) :
    (s.sinkIt (.ok formatted)).1 = none ∧
      Keeps base maxFiles (chunks ++ [formatted]) (s.step (.ok formatted)) := by
  have hcounted := h.setCurrentSize ((s.currentSize + formatted.length) % sizeT)
  rw [step, RotatingFileSink.sinkIt]
  dsimp only
  split_ifs
  · obtain ⟨s₁, hrotate, hkeeps⟩ := hcounted.rotate
    obtain ⟨s₂, hwrite, hwritten⟩ := (hkeeps.setCurrentSize formatted.length).write formatted
    rw [hrotate, Outcome.andThen_returned rfl, Outcome.andThen_returned rfl, hwrite]
    exact ⟨rfl, hwritten⟩
  · obtain ⟨s₁, hwrite, hwritten⟩ := hcounted.write formatted
    rw [Outcome.andThen_returned rfl, hwrite]
    exact ⟨rfl, hwritten⟩

/-- The texts that are there to be written. -/
def texts (msgs : List (Except Thrown Bytes)) : List Bytes := msgs.filterMap Except.toOption

theorem Keeps.run (h : Keeps base maxFiles chunks s) (msgs : List (Except Thrown Bytes)) :
    Keeps base maxFiles (chunks ++ texts msgs) (Runs.run step s msgs) ∧
      ∀ p ∈ Runs.trace step s msgs, ∀ formatted, p.2 = .ok formatted →
        (p.1.sinkIt p.2).1 = none := by
  induction msgs generalizing s chunks with
  | nil => exact ⟨by simpa [texts, Runs.run] using h, by simp [Runs.trace]⟩
  | cons msg rest ih =>
      cases msg with
      | error thrown =>
          obtain ⟨hrun, htrace⟩ := ih h
          refine ⟨hrun, ?_⟩
          intro p hp formatted hformatted
          rcases List.mem_cons.mp hp with rfl | hp
          · exact absurd hformatted (by simp)
          · exact htrace p hp formatted hformatted
      | ok text =>
          obtain ⟨hok, hstep⟩ := h.sinkIt text
          obtain ⟨hrun, htrace⟩ := ih hstep
          refine ⟨?_, fun p hp formatted hformatted => ?_⟩
          · rw [List.append_assoc] at hrun
            exact hrun
          · rcases List.mem_cons.mp hp with rfl | hp
            · exact hok
            · exact htrace p hp formatted hformatted

theorem Keeps.new (maxFiles : ℕ) {os : Os} (hquiet : os.Quiet) (hbase : base ≠ []) (maxSize : ℕ)
    (rotateOnOpen : Bool) :
    ∃ s, new base maxSize maxFiles rotateOnOpen os = (none, s) ∧
      Keeps base maxFiles (existing base maxFiles os) s := by
  obtain ⟨hok, hready, hname, hcontent⟩ := FileHelper.openFile_quiet (h := FileHelper.initial os)
    hquiet rfl (show calcFilename base 0 ≠ [] from hbase) false
  obtain ⟨os₁, hsize, hready₁, hsame⟩ := FileHelper.size_ready hready
  obtain ⟨older, holder⟩ := Generations.oldestFirst_update_zero (generation base os) maxFiles
  have hbefore : existing base maxFiles os = older ++ (os.content base).toList := by
    have hself := holder (generation base os 0)
    rwa [Function.update_eq_self] at hself
  have hafter : existing base maxFiles os₁ = older ++ [(os.content base).getD []] := by
    have hopened := (generation_update (hsame.trans hcontent))
    rw [existing, hopened]
    exact holder _
  have hkeeps (currentSize : ℕ) : Keeps base maxFiles (existing base maxFiles os)
      ⟨base, maxSize, maxFiles, currentSize,
        { ((FileHelper.initial os).openFile (calcFilename base 0) false).2 with os := os₁ }⟩ := by
    refine ⟨⟨hready₁, hname, hbase⟩, rfl, rfl, [],
      older.map (fun c => [c]) ++ [(os.content base).toList], ?_, ?_⟩
    · rw [List.nil_append, List.flatten_append, ← List.flatMap_def, List.flatMap_singleton',
        List.flatten_singleton, hbefore]
    · have hsingle : List.flatten ∘ (fun c : Bytes => [c]) = id := by
        funext c
        simp
      calc existing base maxFiles os₁
          = older ++ [(os.content base).getD []] := hafter
        _ = older ++ [(os.content base).toList.flatten] := by cases os.content base <;> simp
        _ = (older.map (fun c => [c]) ++ [(os.content base).toList]).map List.flatten := by
            rw [List.map_append, List.map_map, hsingle, List.map_id]
            rfl
  have hopened : (onFile (fun file => file.openFile (calcFilename base 0) false)
      ⟨base, maxSize, maxFiles, 0, FileHelper.initial os⟩).1 = none := hok
  rw [RotatingFileSink.new, Outcome.andThen_returned hopened, takeSize]
  dsimp only [onFile, Outcome.within]
  rw [hsize]
  dsimp only
  split_ifs
  · exact (hkeeps _).rotate
  · exact ⟨_, rfl, hkeeps _⟩

/-- There is no sink without a name. -/
theorem new_nil (maxSize maxFiles : ℕ) (rotateOnOpen : Bool) (os : Os) :
    (new [] maxSize maxFiles rotateOnOpen os).1 ≠ none := by
  obtain ⟨thrown, hthrown⟩ := Option.ne_none_iff_exists'.mp
    (FileHelper.openFile_nil false (FileHelper.initial os))
  have hopened : (onFile (fun file => file.openFile (calcFilename [] 0) false)
      ⟨[], maxSize, maxFiles, 0, FileHelper.initial os⟩).1 = some thrown := hthrown
  rw [new, Outcome.andThen_threw hopened]
  simp

end RotatingFileSink

end Structlog
