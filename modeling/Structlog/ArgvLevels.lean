import Structlog.LoadLevels

/-!
# Levels from the arguments of a program

`load_argv_levels` loads every argument with a prefix, one after the other.  Each replaces
the table of levels, so that a logger that is made later has its level from the last
argument alone, and a global level in a later argument is given to a logger that an
earlier one has named.

The arguments act like one string, joined by commas, exactly if the last one names every
logger that one before it names (`LastNamesAll`).
-/

namespace Structlog

open Lib Cfg

namespace Cfg

def spdlogLevelPrefix : Bytes := ascii "SPDLOG_LEVEL="

/-- The strings of levels among the arguments after the first. -/
def levelStrings (argv : List Bytes) : List Bytes :=
  (argv.tail.filter (spdlogLevelPrefix <+: ·)).map (·.drop spdlogLevelPrefix.length)

/-- Every entry has the name of a level. -/
def Recognized (entries : List (Bytes × Bytes)) : Prop :=
  ∀ entry ∈ entries, (recognize entry.2).isSome = true

instance (entries : List (Bytes × Bytes)) : Decidable (Recognized entries) :=
  inferInstanceAs (Decidable (∀ _ ∈ _, _))

/-- The last string has an entry for every logger that an earlier one has an entry for. -/
def LastNamesAll (inputs : List Bytes) : Prop :=
  ∀ earlier last, inputs = earlier ++ [last] → ∀ input ∈ earlier, ∀ entry ∈ keyVals input,
    entry.1 ≠ [] → entry.1 ∈ (keyVals last).map Prod.fst

theorem lastNamesAll_iff {earlier : List Bytes} {last : Bytes} :
    LastNamesAll (earlier ++ [last]) ↔ ∀ loggerName ≠ [],
      loggerName ∈ (earlier.flatMap keyVals).map Prod.fst →
        loggerName ∈ (keyVals last).map Prod.fst := by
  constructor
  · intro h loggerName hname hmem
    obtain ⟨entry, hentry, rfl⟩ := List.mem_map.mp hmem
    obtain ⟨input, hinput, hentry⟩ := List.mem_flatMap.mp hentry
    exact h earlier last rfl input hinput entry hentry hname
  · intro h earlier' last' heq input hinput entry hentry hname
    obtain ⟨rfl, hsame⟩ := List.append_inj' heq rfl
    obtain rfl := (List.cons.inj hsame).1
    exact h entry.1 hname (List.mem_map_of_mem (List.mem_flatMap.mpr ⟨input, hinput, hentry⟩))

/-! ## A joined string -/

theorem keyVals_append (first second : Bytes) :
    keyVals (first ++ comma :: second) = keyVals first ++ keyVals second := by
  rw [keyVals, tokens, List.splitOn_append_cons_self, List.filter_append, List.map_append]
  rfl

/-- The entries of the joined string are those of the strings. -/
theorem keyVals_join (inputs : List Bytes) :
    keyVals ([comma].intercalate inputs) = inputs.flatMap keyVals := by
  induction inputs with
  | nil => rfl
  | cons input rest ih =>
      by_cases hrest : rest = []
      · rw [hrest, List.intercalate_singleton, List.flatMap_singleton]
      · rw [List.intercalate_cons_of_ne_nil hrest, List.append_assoc, List.singleton_append,
          keyVals_append, ih, List.flatMap_cons]

theorem levelIn_append (loggerName : Bytes) (first : List (Bytes × Bytes))
    {second : List (Bytes × Bytes)} (hsecond : Recognized second) :
    levelIn loggerName (first ++ second) =
      (levelIn loggerName second).or (levelIn loggerName first) := by
  rw [levelIn, levelIn, levelIn, OrdMap.lastValue_append]
  cases hlast : OrdMap.lastValue loggerName second with
  | none => rfl
  | some value =>
      have hvalue := hsecond _ (OrdMap.mem_of_lastValue hlast)
      obtain ⟨level, hlevel⟩ := Option.isSome_iff_exists.mp hvalue
      simp [hlevel]

/-- Where every entry has a level, the names with a level are those of the entries. -/
theorem isSome_levelIn {loggerName : Bytes} {entries : List (Bytes × Bytes)}
    (hentries : Recognized entries) :
    (levelIn loggerName entries).isSome = true ↔ loggerName ∈ entries.map Prod.fst := by
  rw [← OrdMap.isSome_lastValue, levelIn]
  cases hlast : OrdMap.lastValue loggerName entries with
  | none => rfl
  | some value => exact iff_of_true (hentries _ (OrdMap.mem_of_lastValue hlast)) rfl

theorem Recognized.flatMap {inputs : List Bytes}
    (h : ∀ input ∈ inputs, Recognized (keyVals input)) : Recognized (inputs.flatMap keyVals) := by
  intro entry hmem
  obtain ⟨input, hinput, hentry⟩ := List.mem_flatMap.mp hmem
  exact h input hinput entry hentry

/-! ## One call or one for each string -/

theorem entry_levelCall (loggerName input : Bytes) :
    (levelCall input).entry loggerName =
      if loggerName = [] then none else levelIn loggerName (keyVals input) :=
  lookup_readLevels loggerName input

theorem global_levelCall (input : Bytes) :
    (levelCall input).global = levelIn [] (keyVals input) :=
  global_readLevels input

/-- The last global level of the calls is that of the joined string. -/
theorem lastGlobal_levelCalls {inputs : List Bytes}
    (h : ∀ input ∈ inputs, Recognized (keyVals input)) :
    LevelCall.lastGlobal (inputs.map levelCall) = levelIn [] (inputs.flatMap keyVals) := by
  induction inputs using List.reverseRecOn with
  | nil => rfl
  | append_singleton inputs last ih =>
      have hlast := h last (List.mem_append_right _ (List.mem_singleton_self last))
      have hearlier := ih fun input hmem => h input (List.mem_append_left _ hmem)
      have hone : LevelCall.lastGlobal [levelCall last] = levelIn [] (keyVals last) := by
        rw [← global_levelCall]
        cases hglobal : (levelCall last).global <;> simp [LevelCall.lastGlobal, hglobal]
      rw [List.map_append, List.map_singleton, LevelCall.lastGlobal_append, hone, hearlier,
        List.flatMap_append, List.flatMap_singleton, levelIn_append [] _ hlast]

/-- A logger that no string names. -/
theorem entry_levelCall_eq_none {loggerName : Bytes} {inputs : List Bytes}
    (h : ∀ input ∈ inputs, Recognized (keyVals input))
    (hname : loggerName = [] ∨ loggerName ∉ (inputs.flatMap keyVals).map Prod.fst) :
    ∀ c ∈ inputs.map levelCall, c.entry loggerName = none := by
  intro c hc
  obtain ⟨input, hinput, rfl⟩ := List.mem_map.mp hc
  rw [entry_levelCall]
  split_ifs with hglobal
  · rfl
  · rw [← Option.not_isSome_iff_eq_none, isSome_levelIn (h input hinput)]
    intro hmem
    obtain ⟨entry, hentry, rfl⟩ := List.mem_map.mp hmem
    exact hname.resolve_left hglobal
      (List.mem_map_of_mem (List.mem_flatMap.mpr ⟨input, hinput, hentry⟩))

/-- The joined string gives the level that the last string gives, or else the one before. -/
theorem levelIn_join (loggerName : Bytes) (earlier : List Bytes) {last : Bytes}
    (hlast : Recognized (keyVals last)) :
    levelIn loggerName (keyVals ([comma].intercalate (earlier ++ [last]))) =
      (levelIn loggerName (keyVals last)).or (levelIn loggerName (earlier.flatMap keyVals)) := by
  rw [keyVals_join, List.flatMap_append, List.flatMap_singleton, levelIn_append loggerName _ hlast]

/-- Where the last string names all, either it names the logger, or none does. -/
theorem entry_levelCall_join {earlier : List Bytes} {last : Bytes}
    (hinputs : ∀ input ∈ earlier ++ [last], Recognized (keyVals input))
    (hnames : LastNamesAll (earlier ++ [last])) (loggerName : Bytes) :
    (∃ level, (levelCall last).entry loggerName = some level ∧
      (levelCall ([comma].intercalate (earlier ++ [last]))).entry loggerName = some level) ∨
    (∀ c ∈ (earlier ++ [last]).map levelCall, c.entry loggerName = none) ∧
      (levelCall ([comma].intercalate (earlier ++ [last]))).entry loggerName = none := by
  have hlast := hinputs last (List.mem_append_right _ (List.mem_singleton_self last))
  rw [lastNamesAll_iff] at hnames
  by_cases hnamed : loggerName ≠ [] ∧ loggerName ∈ (keyVals last).map Prod.fst
  · obtain ⟨hname, hmem⟩ := hnamed
    obtain ⟨level, hlevel⟩ := Option.isSome_iff_exists.mp ((isSome_levelIn hlast).mpr hmem)
    left
    refine ⟨level, ?_, ?_⟩
    · rw [entry_levelCall, if_neg hname, hlevel]
    · rw [entry_levelCall, if_neg hname, levelIn_join loggerName earlier hlast, hlevel,
        Option.some_or]
  · right
    have hunnamed : loggerName = [] ∨
        loggerName ∉ ((earlier ++ [last]).flatMap keyVals).map Prod.fst := by
      refine or_iff_not_imp_left.mpr fun hname => ?_
      have hnotLast : loggerName ∉ (keyVals last).map Prod.fst := fun hmem =>
        hnamed ⟨hname, hmem⟩
      have hnotEarlier := mt (hnames loggerName hname) hnotLast
      rw [List.flatMap_append, List.flatMap_singleton, List.map_append, List.mem_append]
      exact not_or.mpr ⟨hnotEarlier, hnotLast⟩
    refine ⟨entry_levelCall_eq_none hinputs hunnamed, ?_⟩
    rw [entry_levelCall]
    split_ifs with hname
    · rfl
    · rw [← Option.not_isSome_iff_eq_none, keyVals_join, isSome_levelIn (.flatMap hinputs)]
      exact hunnamed.resolve_left hname

end Cfg

namespace Registry

variable {φ ε : Type*}

/-- `load_argv_levels`; `argv` has `argc` arguments. -/
def loadArgvLevels (argv : List Bytes) (r : Registry φ ε) : Registry φ ε :=
  argv.tail.foldl (fun r arg =>
    if spdlogLevelPrefix <+: arg then r.loadLevels (arg.drop spdlogLevelPrefix.length) else r) r

variable [FormatterBase φ]

theorem loadArgvLevels_eq_runLevels (argv : List Bytes) (r : Registry φ ε) :
    r.loadArgvLevels argv = r.runLevels ((levelStrings argv).flatMap levelCalls) := by
  rw [loadArgvLevels, levelStrings]
  induction argv.tail generalizing r with
  | nil => rfl
  | cons arg rest ih =>
      rw [List.foldl_cons, ih, List.filter_cons]
      simp only [decide_eq_true_eq]
      split_ifs
      · rw [List.map_cons, List.flatMap_cons, runLevels_append, loadLevels_eq_runLevels]
      · rfl

theorem length_le_intercalate (sep : Bytes) {input : Bytes} {inputs : List Bytes}
    (h : input ∈ inputs) :
    input.length ≤ (sep.intercalate inputs).length := by
  induction inputs with
  | nil => cases h
  | cons first rest ih =>
      by_cases hrest : rest = []
      · rw [hrest, List.mem_singleton] at h
        rw [hrest, List.intercalate_singleton, h]
      · rw [List.intercalate_cons_of_ne_nil hrest, List.length_append, List.length_append]
        rcases List.mem_cons.mp h with rfl | hmem
        · omega
        · have hle := ih hmem
          omega

/-! ## A single call in place of several -/

/-- The table that calls leave is that of the last one. -/
theorem futureLevel_last {last : LevelCall} (hlast : last.replaces = true) (loggerName : Bytes)
    (earlier : List LevelCall) (settings : Option Level × Level) :
    ((earlier ++ [last]).foldl (LevelCall.futureLevel loggerName) settings).1 =
      last.entry loggerName := by
  rw [List.foldl_append, List.foldl_cons, List.foldl_nil, LevelCall.futureLevel, if_pos hlast]

theorem entry_of_sameLevels {r : Registry φ ε} (h : r.Consistent) {earlier : List LevelCall}
    {last single : LevelCall} (hlast : last.replaces = true) (hsingle : single.replaces = true)
    (hsame : SameLevels (r.runLevels (earlier ++ [last])) (r.runLevels [single]))
    (loggerName : Bytes) : last.entry loggerName = single.entry loggerName := by
  have hfuture := ((sameLevels_runLevels_iff h _ _).mp hsame).2 loggerName
  have htables := congrArg Prod.fst hfuture
  rw [futureLevel_last hlast] at htables
  exact htables.trans (futureLevel_last hsingle loggerName [] _)

/-- The single call sets the last global level, and gives a logger what the last call gives
it, or nothing if no call names it. -/
theorem sameLevels_single {r : Registry φ ε} (h : r.Consistent) {earlier : List LevelCall}
    {last single : LevelCall} (hlast : last.replaces = true) (hsingle : single.replaces = true)
    (hglobal : single.global = LevelCall.lastGlobal (earlier ++ [last]))
    (hentries : ∀ loggerName,
      (∃ level, last.entry loggerName = some level ∧ single.entry loggerName = some level) ∨
        (∀ c ∈ earlier ++ [last], c.entry loggerName = none) ∧
          single.entry loggerName = none) :
    SameLevels (r.runLevels (earlier ++ [last])) (r.runLevels [single]) := by
  apply (sameLevels_runLevels_iff h _ _).mpr
  constructor
  · intro loggerName a _
    rw [List.foldl_cons, List.foldl_nil]
    rcases hentries loggerName with ⟨level, hlevel, hlevel'⟩ | ⟨hnone, hnone'⟩
    · rw [List.foldl_append, List.foldl_cons, List.foldl_nil, LevelCall.existingLevel,
        LevelCall.existingLevel, hlevel, hlevel']
      rfl
    · rw [LevelCall.foldl_existingLevel hnone, LevelCall.existingLevel, hnone', hglobal]
      rfl
  · intro loggerName
    have hentry : last.entry loggerName = single.entry loggerName := by
      rcases hentries loggerName with ⟨level, hlevel, hlevel'⟩ | ⟨hnone, hnone'⟩
      · exact hlevel.trans hlevel'.symm
      · have hmem := List.mem_append_right earlier (List.mem_singleton_self last)
        exact (hnone last hmem).trans hnone'.symm
    apply Prod.ext
    · calc ((earlier ++ [last]).foldl (LevelCall.futureLevel loggerName) _).1
          = last.entry loggerName := futureLevel_last hlast loggerName earlier _
        _ = single.entry loggerName := hentry
        _ = _ := (futureLevel_last hsingle loggerName [] _).symm
    · rw [LevelCall.foldl_futureLevel_snd, ← hglobal]
      rfl

/-- One call for each string leaves the levels that one call for all leaves exactly if the
last string names all. -/
theorem sameLevels_join_iff {r : Registry φ ε} (h : r.Consistent) {earlier : List Bytes}
    {last : Bytes} (hinputs : ∀ input ∈ earlier ++ [last], Recognized (keyVals input)) :
    SameLevels (r.runLevels ((earlier ++ [last]).map levelCall))
        (r.runLevels [levelCall ([comma].intercalate (earlier ++ [last]))]) ↔
      LastNamesAll (earlier ++ [last]) := by
  have hlast := hinputs last (List.mem_append_right _ (List.mem_singleton_self last))
  have hearlier := Recognized.flatMap fun input hmem =>
    hinputs input (List.mem_append_left [last] hmem)
  have hmap : (earlier ++ [last]).map levelCall = earlier.map levelCall ++ [levelCall last] := by
    rw [List.map_append, List.map_singleton]
  constructor
  · intro hsame
    rw [lastNamesAll_iff]
    intro loggerName hname hmem
    rw [hmap] at hsame
    have hentry := entry_of_sameLevels h rfl rfl hsame loggerName
    rw [entry_levelCall, entry_levelCall, if_neg hname, if_neg hname,
      levelIn_join loggerName earlier hlast] at hentry
    rw [← isSome_levelIn hlast, hentry, Option.isSome_or, (isSome_levelIn hearlier).mpr hmem,
      Bool.or_true]
  · intro hnames
    have hglobal := lastGlobal_levelCalls hinputs
    have hentries := entry_levelCall_join hinputs hnames
    rw [← keyVals_join, ← global_levelCall, hmap] at hglobal
    rw [hmap] at hentries ⊢
    exact sameLevels_single h rfl rfl hglobal.symm hentries

/-- In a registry after any calls, the arguments of a program leave the levels that the joined
string leaves if and only if the last one names every logger that is named. -/
theorem load_argv_levels_joined_iff (defaultFormatter : φ) (defaultLogger colorSink : Addr)
    (o : Objects φ ε) (calls : List (RegistryCall φ ε)) (argv : List Bytes)
    (hentries : ∀ input ∈ levelStrings argv, input ≠ [] ∧ Recognized (keyVals input))
    (hlength : ([comma].intercalate (levelStrings argv)).length ≤ 512) :
    let r := Runs.run step (new defaultFormatter defaultLogger colorSink o) calls
    SameLevels (r.loadArgvLevels argv)
        (r.loadLevels ([comma].intercalate (levelStrings argv))) ↔
      LastNamesAll (levelStrings argv) := by
  intro r
  have hr : r.Consistent :=
    (consistent_new defaultFormatter defaultLogger colorSink o).run calls
  rw [loadArgvLevels_eq_runLevels, loadLevels_eq_runLevels]
  generalize levelStrings argv = inputs at *
  rcases List.eq_nil_or_concat inputs with rfl | ⟨earlier, last, rfl⟩
  · refine iff_of_true (.refl _) ?_
    intro earlier last heq
    simp at heq
  · rw [List.concat_eq_append] at *
    have hshort input (hmem : input ∈ earlier ++ [last]) : input.length ≤ 512 :=
      (length_le_intercalate [comma] hmem).trans hlength
    have hcalls : (earlier ++ [last]).flatMap levelCalls = (earlier ++ [last]).map levelCall := by
      rw [List.map_eq_flatMap]
      exact List.flatMap_congr fun input hmem =>
        levelCalls_eq (hentries input hmem).1 (hshort input hmem)
    have hnotNil : [comma].intercalate (earlier ++ [last]) ≠ [] := by
      intro hnil
      have hmem : last ∈ earlier ++ [last] := List.mem_append_right _ (List.mem_singleton_self _)
      have hle := length_le_intercalate [comma] hmem
      rw [hnil] at hle
      exact (hentries last hmem).1 (List.eq_nil_of_length_eq_zero (Nat.le_zero.mp hle))
    rw [hcalls, levelCalls_eq hnotNil hlength]
    exact sameLevels_join_iff hr fun input hmem => (hentries input hmem).2

/-- Loggers of which two have the names `x` and `y`. -/
def namedXY : Objects Unit Unit :=
  { logger := fun a => { name := if a = 2 then ascii "x" else ascii "y", sinks := [] }
    formatter := fun _ => () }

/-- The last argument names the logger of the first again. -/
theorem load_argv_levels_joined_names :
    let argv := [ascii "prog", ascii "SPDLOG_LEVEL=x=debug", ascii "SPDLOG_LEVEL=x=info,y=warn"]
    let r := Runs.run step (new () 0 1 namedXY) []
    SameLevels (r.loadArgvLevels argv)
      (r.loadLevels ([comma].intercalate (levelStrings argv))) := by
  have hiff := load_argv_levels_joined_iff () 0 1 namedXY []
    [ascii "prog", ascii "SPDLOG_LEVEL=x=debug", ascii "SPDLOG_LEVEL=x=info,y=warn"] (by decide)
    (by decide)
  apply hiff.mpr
  have hstrings :
      levelStrings [ascii "prog", ascii "SPDLOG_LEVEL=x=debug",
        ascii "SPDLOG_LEVEL=x=info,y=warn"] =
      [ascii "x=debug"] ++ [ascii "x=info,y=warn"] := by decide
  rw [hstrings, lastNamesAll_iff]
  intro loggerName _ hmem
  have hx : ([ascii "x=debug"].flatMap keyVals).map Prod.fst = [ascii "x"] := by decide
  rw [hx, List.mem_singleton] at hmem
  rw [hmem]
  decide

/-- A logger that is made later does not get the level of the first argument, and one that
was made before gets the global level of the second. -/
theorem load_argv_levels_replaced :
    let argv := [ascii "prog", ascii "SPDLOG_LEVEL=x=debug", ascii "SPDLOG_LEVEL=y=warn"]
    let argv' := [ascii "prog", ascii "SPDLOG_LEVEL=x=debug", ascii "SPDLOG_LEVEL=warn"]
    let r := Runs.run step (new () 0 1 namedXY) []
    let r' := Runs.run step (new () 0 1 namedXY) [.initializeLogger 2]
    (∀ input ∈ levelStrings argv ++ levelStrings argv',
      input ≠ [] ∧ Recognized (keyVals input)) ∧
      [comma].intercalate (levelStrings argv) = ascii "x=debug,y=warn" ∧
      ((r.loadArgvLevels argv).initializeLogger 2 none).2.levelOf 2 = .info ∧
      ((r.loadLevels (ascii "x=debug,y=warn")).initializeLogger 2 none).2.levelOf 2 = .debug ∧
      ¬ SameLevels (r.loadArgvLevels argv) (r.loadLevels (ascii "x=debug,y=warn")) ∧
      [comma].intercalate (levelStrings argv') = ascii "x=debug,warn" ∧
      (r'.loadArgvLevels argv').levelOf 2 = .warn ∧
      (r'.loadLevels (ascii "x=debug,warn")).levelOf 2 = .debug := by
  refine ⟨by decide, by decide, by decide, by decide, ?_, by decide, by decide, by decide⟩
  intro hsame
  have htables := congrArg (OrdMap.lookup (ascii "x")) hsame.logLevels
  exact absurd htables (by decide)

end Registry

end Structlog
