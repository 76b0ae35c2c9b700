import Structlog.Lib.CStrings
import Structlog.PatternRuns

/-!
# The short name of a file

`short_filename_formatter::basename` is compiled in one of two ways: with `strrchr` where there is
one separator, else with a search for any of them from the back.  Both answer with a pointer into
the name.  What it points to is the longest suffix without a separator, and so the same
(`basenameStrrchr_eq`); `%s` and `%+`, which print it, then write the same, and so do the
formatters of all patterns, in every sequence of messages.
-/

namespace Structlog

open Lib FmtHelper

/-! ## The two paths -/

/-- The path with `strrchr`. -/
def basenameStrrchr (folderSeps filename : CString) : ℕ :=
  match filename.strrchr (folderSeps.cells.getD 0 0) with
  | some rv => rv + 1
  | none => 0

/-- The path with `find_first_of`. -/
def basenameFindFirstOf (folderSeps filename : CString) : ℕ :=
  -- the terminator is not one of the separators, and the end has the base `0`
  let it := filename.findFirstOfReverse folderSeps.chars filename.strlen
  if it ≠ 0 then it else 0

/-- `basename`, with the path for the size of the separators. -/
def basenameOf (folderSeps filename : CString) : ℕ :=
  if folderSeps.sizeof = 2 then basenameStrrchr folderSeps filename
  else basenameFindFirstOf folderSeps filename

theorem basenameFindFirstOf_eq (folderSeps filename : CString) :
    basenameFindFirstOf folderSeps filename = lastStart (· ∉ folderSeps.chars) filename.chars := by
  have hstart := filename.findFirstOfReverse_eq folderSeps.chars (Nat.le_refl _)
  rw [CString.strlen, List.take_length] at hstart
  rw [basenameFindFirstOf, CString.strlen, hstart]
  split_ifs with h
  · rfl
  · exact (not_not.mp h).symm

/-- A string of two cells has one character. -/
theorem chars_eq_singleton {s : CString} (h : s.sizeof = 2) :
    ∃ c, c ≠ 0 ∧ s.chars = [c] ∧ s.cells.getD 0 0 = c := by
  rw [CString.sizeof, CString.cells, List.length_append, List.length_singleton] at h
  obtain ⟨c, hc⟩ := List.length_eq_one_iff.mp (Nat.succ.inj h)
  refine ⟨c, ?_, hc, ?_⟩
  · rintro rfl
    exact s.noTerminator (hc ▸ List.mem_singleton_self 0)
  · rw [CString.cells, hc]
    rfl

/-- With one separator both paths answer with the same pointer. -/
theorem basenameStrrchr_eq {folderSeps : CString} (h : folderSeps.sizeof = 2)
    (filename : CString) :
    basenameStrrchr folderSeps filename = basenameFindFirstOf folderSeps filename := by
  obtain ⟨c, hc, hchars, hcell⟩ := chars_eq_singleton h
  have hset : (fun b => decide (b ∉ [c])) = fun b : UInt8 => decide (b ≠ c) :=
    funext fun _ => decide_eq_decide.mpr (not_congr List.mem_singleton)
  rw [basenameFindFirstOf_eq, hchars, hset, ← CString.pastOccurrence_strrchr _ hc, ← hcell]
  rfl

theorem basenameOf_eq (folderSeps filename : CString) :
    basenameOf folderSeps filename = basenameFindFirstOf folderSeps filename := by
  unfold basenameOf
  split_ifs with h
  · exact basenameStrrchr_eq h filename
  · rfl

/-- The path from the back points to the longest suffix without a separator. -/
theorem isLastPart_basename (folderSeps filename : CString) :
    IsLastPart folderSeps.chars filename.chars
      (filename.textAt (basenameFindFirstOf folderSeps filename)) := by
  rw [basenameFindFirstOf_eq]
  exact isLastPart_drop filename.chars folderSeps.chars

/-! ## Formatters with either path -/

section Paths

variable (path : CString → ℕ)

/-- The name that the pointer is. -/
def shortName (filename : Bytes) : Bytes :=
  (CString.ofBytes filename).textAt (path (.ofBytes filename))

/-- A call of `pattern_formatter::format`, for a message and a buffer. -/
def PatternFormatter.stepBy (env : Environment) (pf : PatternFormatter) (call : Record × Target) :
    Except Failure (PatternFormatter × Target) :=
  pf.formatBy (shortName path) env call.1 call.2

/-- `%s` and `%+` print the longest suffix of the name of the file without a separator. -/
def PrintsShortName (folderSeps : CString) : Prop :=
  ∀ (msg : Record) (filename : CString), msg.source.empty = false →
    msg.source.filename = some filename.chars →
    ∃ short, IsLastPart folderSeps.chars filename.chars short ∧
      shortFilenameFormatter (shortName path) msg = .ok (some (.exact short)) ∧
      fullSourceBy (shortName path) msg = .ok (ascii "[" ++ short ++ ascii ":" ++
        decimalInt msg.source.line ++ ascii "] ")

end Paths

theorem printsShortName_findFirstOf (folderSeps : CString) :
    PrintsShortName (basenameFindFirstOf folderSeps) folderSeps := by
  intro msg filename hsource hfilename
  refine ⟨_, isLastPart_basename folderSeps filename, ?_, ?_⟩
  · unfold shortFilenameFormatter sourceField
    rw [hsource, hfilename]
    simp only [shortName, CString.ofBytes_chars]
    rfl
  · rw [fullSourceBy, hsource, hfilename]
    simp only [shortName, CString.ofBytes_chars]
    rfl

/-! ## Formatters with the same names -/

section Names

variable {name name' : Bytes → Bytes} {msg : Record}

/-- Only the name of the file of a message matters. -/
theorem FlagFormatter.formatBy_congr
    (h : ∀ filename ∈ msg.source.filename, name filename = name' filename) (pid : ℤ) (tm : Tm)
    (t : Target) (f : FlagFormatter) :
    f.formatBy name pid msg tm t = f.formatBy name' pid msg tm t := by
  have hfield : shortFilenameFormatter name msg = shortFilenameFormatter name' msg := by
    unfold shortFilenameFormatter
    cases hfilename : msg.source.filename with
    | none => rfl
    | some filename =>
        unfold sourceField
        dsimp only
        rw [h filename hfilename]
  have hfull : fullSourceBy name msg = fullSourceBy name' msg := by
    unfold fullSourceBy
    cases hfilename : msg.source.filename with
    | none => rfl
    | some filename =>
        dsimp only
        rw [h filename hfilename]
  cases f with
  | field flag padinfo =>
      have hflag : flag.fieldBy name pid msg tm = flag.fieldBy name' pid msg tm := by
        cases flag with
        | shortFilename => exact hfield
        | _ => rfl
      rw [formatBy, formatBy, hflag]
  | full cacheTimestamp cachedDatetime =>
      unfold formatBy fullFormatBy
      rw [hfull]
  | _ => rfl

theorem PatternFormatter.formatAllBy_congr
    (h : ∀ filename ∈ msg.source.filename, name filename = name' filename) (pid : ℤ) (tm : Tm)
    (formatters : List FlagFormatter) (t : Target) :
    formatAllBy name pid msg tm formatters t = formatAllBy name' pid msg tm formatters t := by
  induction formatters generalizing t with
  | nil => rfl
  | cons f rest ih =>
      rw [formatAllBy, formatAllBy, FlagFormatter.formatBy_congr h]
      simp only [ih]

end Names

/-! ## The separator of the default build -/

/-- `SPDLOG_FOLDER_SEPS`. -/
def slash : CString := ⟨[charByte '/'], by decide⟩

/-- What comes after the last separator, if there is one. -/
theorem isLastPart_basename_slash (filename : Bytes) :
    IsLastPart slash.chars filename (basename filename) := by
  have hfree {part : Bytes} (h : charByte '/' ∉ part) : ∀ b ∈ part, b ∉ slash.chars :=
    fun b hb hslash => h (List.mem_singleton.mp hslash ▸ hb)
  by_cases h : charByte '/' ∈ filename
  · obtain ⟨before, after, rfl, hafter⟩ := exists_last_of_mem h
    have hdrop : (before ++ charByte '/' :: after).drop (before.length + 1) = after := by
      rw [← List.drop_drop, List.drop_left]
      rfl
    rw [basename, rfind_append_cons before hafter]
    dsimp only
    rw [hdrop]
    exact .of_append_cons before (List.mem_singleton_self _) (hfree hafter)
  · rw [basename, rfind_eq_none h]
    exact .of_free (hfree h)

theorem shortName_slash {filename : Bytes} (h : 0 ∉ filename) :
    shortName (basenameOf slash) filename = basename filename := by
  have hchars := CString.chars_ofBytes h
  have hlast := isLastPart_basename slash (.ofBytes filename)
  rw [← basenameOf_eq, hchars] at hlast
  exact hlast.unique (isLastPart_basename_slash filename)

/-- The formatters of the default build are those with the path for its separator, if the
names of files are C strings. -/
theorem PatternFormatter.answers_stepBy_slash (env : Environment) (pf : PatternFormatter)
    {calls : List (Record × Target)}
    (h : ∀ call ∈ calls, ∀ filename ∈ call.1.source.filename, 0 ∉ filename) :
    Runs.answers (stepBy (basenameOf slash) env) pf calls = Runs.answers (step env) pf calls := by
  refine Runs.answers_congr (fun call hcall pf => ?_) pf
  rw [stepBy, step, format, formatBy, formatBy]
  dsimp only
  rw [formatAllBy_congr fun filename hfilename => shortName_slash (h call hcall filename hfilename)]

/-! ## Both paths agree -/

/-- The search from the back finds the longest suffix without a separator, and with one separator
`strrchr` finds the same; `%s` and `%+` print it by whichever path is compiled in, and all
formatters write the same by both. -/
theorem basename_paths_agree (folderSeps : CString) :
    (∀ filename : CString, IsLastPart folderSeps.chars filename.chars
      (filename.textAt (basenameFindFirstOf folderSeps filename))) ∧
    PrintsShortName (basenameFindFirstOf folderSeps) folderSeps ∧
    PrintsShortName (basenameOf folderSeps) folderSeps ∧
    (folderSeps.sizeof = 2 →
      (∀ filename : CString, filename.textAt (basenameStrrchr folderSeps filename) =
        filename.textAt (basenameFindFirstOf folderSeps filename)) ∧
      PrintsShortName (basenameStrrchr folderSeps) folderSeps ∧
      ∀ env pf calls,
        Runs.answers (PatternFormatter.stepBy (basenameStrrchr folderSeps) env) pf calls =
          Runs.answers (PatternFormatter.stepBy (basenameFindFirstOf folderSeps) env) pf
            calls) := by
  have hprints := printsShortName_findFirstOf folderSeps
  refine ⟨isLastPart_basename folderSeps, hprints, ?_, fun h => ?_⟩
  · rw [show basenameOf folderSeps = basenameFindFirstOf folderSeps from
      funext (basenameOf_eq folderSeps)]
    exact hprints
  · rw [show basenameStrrchr folderSeps = basenameFindFirstOf folderSeps from
      funext (basenameStrrchr_eq h)]
    exact ⟨fun _ => rfl, hprints, fun _ _ _ => rfl⟩

end Structlog
