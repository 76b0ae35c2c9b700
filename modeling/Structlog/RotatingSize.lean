import Structlog.RotatingFileSink

/-!
# The byte counter of `rotating_file_sink`

`current_size_` is kept apart from the file: the constructor reads it off the
open file, a message adds to it, and a rotation for a message starts it again.
The rotation on opening does not, so that the counter of a sink that has just
moved an old file out of the way still counts that file.

`Counts` is the invariant, in `size_t`: the counter and the size of the open
file are the same number.  Every message keeps it (`Counts.step`), and the
constructor establishes it unless it rotates (`counts_new_iff`).
-/

namespace Structlog

open Lib

namespace RotatingFileSink

/-- What is in the base file. -/
def baseContent (s : RotatingFileSink) : Bytes := (s.os.content s.baseFilename).getD []

/-- `current_size_` is the number of bytes in the base file; a file has fewer than
`2 ^ 64`. -/
def CountsBytes (s : RotatingFileSink) : Prop :=
  s.baseContent.length < sizeT → s.currentSize = s.baseContent.length

/-- `sink_it_` calls `rotate_`. -/
def RotatesFor (s : RotatingFileSink) (formatted : Bytes) : Prop :=
  s.maxSize < (s.currentSize + formatted.length) % sizeT

instance (s : RotatingFileSink) (formatted : Bytes) : Decidable (s.RotatesFor formatted) :=
  inferInstanceAs (Decidable (_ < _))

/-- A message rotates exactly when the file together with it would be too large; it
is then the first of the file, and otherwise comes after what is there. -/
def RotatesOnTime (s : RotatingFileSink) (formatted : Bytes) : Prop :=
  s.baseContent.length + formatted.length < sizeT →
    (s.RotatesFor formatted ↔ s.maxSize < s.baseContent.length + formatted.length) ∧
    (s.step (.ok formatted)).baseContent =
      if s.maxSize < s.baseContent.length + formatted.length then formatted
      else s.baseContent ++ formatted

/-! ## What is in the base file -/

theorem content_baseFilename {s : RotatingFileSink} (hopen : s.Open) :
    s.os.content s.baseFilename = some s.baseContent := by
  obtain ⟨fp, hfd, hdir⟩ := hopen.ready.stream
  rw [hopen.filename] at hdir
  have hdata : s.os.content s.baseFilename = some (s.os.fs.data fp) :=
    congrArg (Option.map s.os.fs.data) hdir
  rw [baseContent, hdata]
  rfl

/-- A rotation leaves an empty base file. -/
theorem rotate_baseContent {s : RotatingFileSink} (hopen : s.Open) :
    ∃ file, s.rotate = (none, { s with fileHelper := file }) ∧
      Open { s with fileHelper := file } ∧
      baseContent { s with fileHelper := file } = [] := by
  obtain ⟨file, k, hrotate, -, hopen', hexisting⟩ := rotate_quiet hopen
  refine ⟨file, hrotate, hopen', ?_⟩
  obtain ⟨older, content, hcontent, hlast⟩ := existing_last hopen'
  have hself : existing s.baseFilename s.maxFiles file.os = older ++ [content] := by
    apply hlast file.os content
    exact (Function.update_eq_self_iff.mpr hcontent.symm).symm
  rw [hself] at hexisting
  have hempty := (List.append_inj' hexisting rfl).2
  rw [baseContent, hcontent]
  exact List.singleton_injective hempty

/-- A write puts the message behind what is there. -/
theorem write_baseContent {s : RotatingFileSink} (hopen : s.Open) (buf : Bytes) :
    ∃ file, s.onFile (FileHelper.write buf) = (none, { s with fileHelper := file }) ∧
      Open { s with fileHelper := file } ∧
      baseContent { s with fileHelper := file } = s.baseContent ++ buf := by
  obtain ⟨hok, hready, hname, hcontent⟩ := FileHelper.write_ready hopen.ready buf
  refine ⟨_, Prod.ext hok rfl, ⟨hready, hname.trans hopen.filename, hopen.name_ne⟩, ?_⟩
  rw [hopen.filename, content_baseFilename hopen] at hcontent
  rw [baseContent]
  dsimp only
  rw [hcontent, Function.update_self]
  rfl

/-! ## The invariant -/

/-- The file is open, and the counter agrees with it. -/
structure Counts (s : RotatingFileSink) : Prop where
  isOpen : s.Open
  counter : s.currentSize % sizeT = s.baseContent.length % sizeT
  bound : s.currentSize < sizeT ∨ s.currentSize = s.baseContent.length

namespace Counts

variable {s : RotatingFileSink}

theorem countsBytes (h : s.Counts) : s.CountsBytes := by
  intro hsize
  rcases h.bound with hbound | heq
  · have hcounter := h.counter
    rwa [Nat.mod_eq_of_lt hbound, Nat.mod_eq_of_lt hsize] at hcounter
  · exact heq

/-- The sum that is compared with `max_size_`. -/
theorem sum_mod (h : s.Counts) (n : ℕ) :
    (s.currentSize + n) % sizeT = (s.baseContent.length + n) % sizeT := by
  rw [← Nat.mod_add_mod, h.counter, Nat.mod_add_mod]

/-- The two ways of a message. -/
theorem sinkIt (h : s.Counts) (formatted : Bytes) :
    ∃ s', s.sinkIt (.ok formatted) = (none, s') ∧ s'.Counts ∧
      (s.RotatesFor formatted → s'.baseContent = formatted) ∧
      (¬ s.RotatesFor formatted → s'.baseContent = s.baseContent ++ formatted) := by
  have hopen : Open { s with currentSize := (s.currentSize + formatted.length) % sizeT } :=
    ⟨h.isOpen.ready, h.isOpen.filename, h.isOpen.name_ne⟩
  rw [RotatingFileSink.sinkIt]
  dsimp only
  by_cases hrotates : s.RotatesFor formatted
  -- The counter starts again with the message, as the file does.
  · obtain ⟨file, hrotate, hopen₁, hempty⟩ := rotate_baseContent hopen
    have hopen₂ : Open { s with fileHelper := file, currentSize := formatted.length } :=
      ⟨hopen₁.ready, hopen₁.filename, hopen₁.name_ne⟩
    obtain ⟨file', hwrite, hopen', hcontent⟩ := write_baseContent hopen₂ formatted
    have hbefore : baseContent { s with fileHelper := file, currentSize := formatted.length } =
        [] := hempty
    rw [hbefore, List.nil_append] at hcontent
    have hcount : formatted.length =
        (baseContent { s with fileHelper := file', currentSize := formatted.length }).length :=
      congrArg List.length hcontent.symm
    rw [if_pos (show s.maxSize < (s.currentSize + formatted.length) % sizeT from hrotates),
      hrotate, Outcome.andThen_returned rfl, Outcome.andThen_returned rfl]
    refine ⟨_, hwrite, ⟨hopen', congrArg (· % sizeT) hcount, .inr hcount⟩, ?_, ?_⟩
    · intro _
      exact hcontent
    · intro hnot
      exact absurd hrotates hnot
  -- Otherwise both grow by its length.
  · obtain ⟨file, hwrite, hopen', hcontent⟩ := write_baseContent hopen formatted
    rw [if_neg (show ¬ s.maxSize < (s.currentSize + formatted.length) % sizeT from hrotates),
      Outcome.andThen_returned rfl]
    refine ⟨_, hwrite, ⟨hopen', ?_, .inl (Nat.mod_lt _ (by decide))⟩, ?_, ?_⟩
    · rw [hcontent, List.length_append]
      apply (Nat.mod_mod _ _).trans
      exact h.sum_mod formatted.length
    · intro hrotates'
      exact absurd hrotates' hrotates
    · intro _
      exact hcontent

theorem step (h : s.Counts) (text : Except Thrown Bytes) : (s.step text).Counts := by
  cases text with
  | error thrown => exact h
  | ok formatted =>
      obtain ⟨s', hsink, hcounts, -⟩ := h.sinkIt formatted
      rw [RotatingFileSink.step, hsink]
      exact hcounts

theorem rotatesOnTime (h : s.Counts) (formatted : Bytes) : s.RotatesOnTime formatted := by
  intro hsize
  have hiff : s.RotatesFor formatted ↔
      s.maxSize < s.baseContent.length + formatted.length := by
    rw [RotatesFor, h.sum_mod, Nat.mod_eq_of_lt hsize]
  obtain ⟨s', hsink, -, hrotated, happended⟩ := h.sinkIt formatted
  refine ⟨hiff, ?_⟩
  rw [RotatingFileSink.step, hsink]
  split_ifs with hlarge
  · exact hrotated (hiff.mpr hlarge)
  · exact happended (mt hiff.mp hlarge)

end Counts

/-! ## The constructor -/

/-- The constructor leaves the size that it has found in the counter, whether it
rotates or not. -/
theorem new_counter {base : Bytes} {os : Os} (hquiet : os.Quiet) (hbase : base ≠ [])
    (maxSize maxFiles : ℕ) (rotateOnOpen : Bool) :
    let found := (os.content base).getD []
    ∃ s, new base maxSize maxFiles rotateOnOpen os = (none, s) ∧ s.Open ∧
      s.currentSize = found.length % sizeT ∧
      s.baseContent = if rotateOnOpen ∧ 0 < found.length % sizeT then [] else found := by
  intro found
  obtain ⟨hok, hready, hname, hcontent⟩ := FileHelper.openFile_quiet (h := FileHelper.initial os)
    hquiet rfl (show calcFilename base 0 ≠ [] from hbase) false
  obtain ⟨os₁, hsize, hready₁, hsame⟩ := FileHelper.size_ready hready
  have hfound : (os₁.content base).getD [] = found := by
    rw [hsame, hcontent]
    change (Function.update os.content base (some found) base).getD [] = found
    rw [Function.update_self]
    rfl
  have hsize' : ((((FileHelper.initial os).openFile (calcFilename base 0) false).2.os.content
      ((FileHelper.initial os).openFile (calcFilename base 0) false).2.filename).getD []) =
        found := by
    rw [← hsame, hname]
    exact hfound
  have hopened : (onFile (fun file => file.openFile (calcFilename base 0) false)
      ⟨base, maxSize, maxFiles, 0, FileHelper.initial os⟩).1 = none := hok
  have hopen : Open ⟨base, maxSize, maxFiles, found.length % sizeT,
      { ((FileHelper.initial os).openFile (calcFilename base 0) false).2 with os := os₁ }⟩ :=
    ⟨hready₁, hname, hbase⟩
  rw [new, Outcome.andThen_returned hopened, takeSize]
  dsimp only [onFile, Outcome.within]
  rw [hsize, hsize']
  dsimp only
  split_ifs
  · obtain ⟨file, hrotate, hopen', hempty⟩ := rotate_baseContent hopen
    exact ⟨_, hrotate, hopen', rfl, hempty⟩
  · exact ⟨_, rfl, hopen, rfl, hfound⟩

/-- The counter of a new sink is right unless the constructor has rotated. -/
theorem counts_new_iff {base : Bytes} {os : Os} (hquiet : os.Quiet) (hbase : base ≠ [])
    (maxSize maxFiles : ℕ) (rotateOnOpen : Bool) :
    let s := (new base maxSize maxFiles rotateOnOpen os).2
    let rotated := rotateOnOpen = true ∧ 0 < ((os.content base).getD []).length % sizeT
    (s.CountsBytes → ¬ rotated) ∧ (¬ rotated → s.Counts) := by
  intro s rotated
  obtain ⟨s', hnew, hopen, hcounter, hcontent⟩ :=
    new_counter hquiet hbase maxSize maxFiles rotateOnOpen
  obtain rfl : s = s' := congrArg Prod.snd hnew
  constructor
  · intro hcounts hrotated
    rw [if_pos hrotated] at hcontent
    have hzero : s.currentSize = 0 := by
      rw [hcounts (by rw [hcontent]; decide), hcontent]
      rfl
    have := hrotated.2
    omega
  · intro hnot
    rw [if_neg hnot] at hcontent
    refine ⟨hopen, ?_, .inl ?_⟩
    · rw [hcounter, hcontent, Nat.mod_mod]
    · rw [hcounter]
      exact Nat.mod_lt _ (by decide)

/-- The counter is right from the constructor on, and every rotation is on time, if
and only if the constructor does not rotate: with `rotate_on_open` and a base file
that is not empty the counter of the new file starts with the size of the old. -/
theorem rotating_file_sink_counts_iff (base : Bytes) (maxSize maxFiles : ℕ) (rotateOnOpen : Bool)
    (os : Os) (hquiet : os.Quiet)
    (hnew : (new base maxSize maxFiles rotateOnOpen os).1 = none)
    (msgs : List (Except Thrown Bytes)) :
    let s := (new base maxSize maxFiles rotateOnOpen os).2
    ((∀ p ∈ Runs.trace step s msgs,
        p.1.CountsBytes ∧ ∀ formatted, p.2 = .ok formatted → p.1.RotatesOnTime formatted) ∧
      (Runs.run step s msgs).CountsBytes) ↔
      ¬ (rotateOnOpen = true ∧ 0 < ((os.content base).getD []).length % sizeT) := by
  intro s
  have hbase : base ≠ [] := by
    rintro rfl
    exact new_nil maxSize maxFiles rotateOnOpen os hnew
  obtain ⟨hnecessary, hsufficient⟩ := counts_new_iff hquiet hbase maxSize maxFiles rotateOnOpen
  constructor
  · rintro ⟨htrace, hlast⟩
    -- The state after the constructor is one of those of the run.
    cases msgs with
    | nil => exact hnecessary hlast
    | cons msg rest => exact hnecessary (htrace (s, msg) List.mem_cons_self).1
  · intro hnot
    obtain ⟨hrun, htrace⟩ := Runs.invariant_of_steps (motive := Counts) (C := fun _ _ => True)
      (fun _ text hs _ => hs.step text) (hsufficient hnot) msgs fun _ _ => trivial
    refine ⟨?_, hrun.countsBytes⟩
    intro p hp
    refine ⟨(htrace p hp).countsBytes, ?_⟩
    intro formatted _
    exact (htrace p hp).rotatesOnTime formatted

/-- A system with a file of three bytes. -/
def threeBytes : Os := ((new (ascii "log.txt") 100 1 false .blank).2.step (.ok (ascii "abc"))).os

theorem quiet_threeBytes : threeBytes.Quiet := by
  obtain ⟨s, hnew, hopen, -⟩ := new_counter Os.quiet_blank
    (show ascii "log.txt" ≠ [] by decide) 100 1 false
  have hcounts : s.Counts := by
    have hboth := counts_new_iff Os.quiet_blank
      (show ascii "log.txt" ≠ [] by decide) 100 1 false
    rw [hnew] at hboth
    exact hboth.2 (by simp)
  have hstep := (hcounts.step (.ok (ascii "abc"))).isOpen.ready.quiet
  rw [threeBytes, hnew]
  exact hstep

/-- Without `rotate_on_open` the three bytes count, and the second message rotates. -/
theorem rotating_file_sink_counts_sample :
    let s := (new (ascii "log.txt") 5 1 false threeBytes).2
    s.currentSize = 3 ∧
    ((∀ p ∈ Runs.trace step s [.ok (ascii "de"), .ok (ascii "f")],
        p.1.CountsBytes ∧ ∀ formatted, p.2 = .ok formatted → p.1.RotatesOnTime formatted) ∧
      (Runs.run step s [.ok (ascii "de"), .ok (ascii "f")]).CountsBytes) :=
  ⟨by decide, (rotating_file_sink_counts_iff (ascii "log.txt") 5 1 false threeBytes
    quiet_threeBytes (by decide) [.ok (ascii "de"), .ok (ascii "f")]).mpr (by simp)⟩

/-- With it the new file is empty and counts three bytes, and the first message of
four bytes, for which there is room, rotates. -/
theorem rotating_file_sink_miscounts :
    let s := (new (ascii "log.txt") 5 1 true threeBytes).2
    (new (ascii "log.txt") 5 1 true threeBytes).1 = none ∧
    s.baseContent = [] ∧ s.currentSize = 3 ∧ ¬ s.CountsBytes ∧
    s.RotatesFor (ascii "defg") ∧ ¬ s.maxSize < s.baseContent.length + (ascii "defg").length ∧
    existing (ascii "log.txt") 1 (s.step (.ok (ascii "defg"))).os = [[], ascii "defg"] := by
  intro s
  have hempty : s.baseContent = [] := by decide
  have hcounter : s.currentSize = 3 := by decide
  refine ⟨by decide, hempty, hcounter, ?_, by decide, by decide, by decide⟩
  intro hcounts
  have hzero := hcounts (by rw [hempty]; decide)
  rw [hempty, hcounter] at hzero
  exact absurd hzero (by decide)

end RotatingFileSink

end Structlog
