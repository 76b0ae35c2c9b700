import Structlog.LoadLevels

/-!
# Entries without a level

`load_levels` passes over a name that is not one of a level.  It does so after the entries
have been collected by logger, and so an entry without a level still replaces an earlier
one of the same logger: `a=debug,a=junk` is not `a=debug`.  And a string of nothing else
clears the table, while the empty string is not looked at.

`hiddenLevel` is what an entry takes from an earlier one, and `Deletable` says when a
registry does not show that it is gone.
-/

namespace Structlog

open Lib

namespace Cfg

/-! ## A string without one of its entries -/

/-- What the loop writes into the map for a list of entries. -/
def keyValsOf (entries : List Bytes) : List (Bytes × Bytes) :=
  (entries.filter (· ≠ [])).map (extractKv (charByte '='))

theorem keyVals_eq (input : Bytes) : keyVals input = keyValsOf (input.splitOn comma) := rfl

theorem keyValsOf_append (first second : List Bytes) :
    keyValsOf (first ++ second) = keyValsOf first ++ keyValsOf second := by
  rw [keyValsOf, List.filter_append, List.map_append]
  rfl

theorem not_mem_of_mem_splitOn {sep : UInt8} {str token : Bytes} (h : token ∈ str.splitOn sep) :
    sep ∉ token := by
  induction str generalizing token with
  | nil =>
      rw [List.splitOn_nil, List.mem_singleton] at h
      rw [h]
      exact List.not_mem_nil
  | cons c rest ih =>
      rw [List.splitOn_cons_eq_if_modifyHead] at h
      split_ifs at h with hsep
      · rcases List.mem_cons.mp h with rfl | hmem
        · exact List.not_mem_nil
        · exact ih hmem
      · obtain ⟨first, tail, hfirst⟩ := List.exists_cons_of_ne_nil (List.splitOn_ne_nil sep rest)
        rw [hfirst, List.modifyHead_cons] at h
        rw [hfirst] at ih
        rcases List.mem_cons.mp h with rfl | hmem
        · intro hmem
          rcases List.mem_cons.mp hmem with rfl | hmem
          · exact hsep (beq_self_eq_true _)
          · exact ih List.mem_cons_self hmem
        · exact ih (List.mem_cons_of_mem _ hmem)

/-- The entries of the string that is put together again. -/
theorem keyVals_intercalate {entries : List Bytes} (h : ∀ entry ∈ entries, comma ∉ entry) :
    keyVals ([comma].intercalate entries) = keyValsOf entries := by
  rcases eq_or_ne entries [] with rfl | hne
  · rfl
  · rw [keyVals_eq, List.splitOn_intercalate comma h hne]

theorem intercalate_sublist (sep : Bytes) (before : List Bytes) (entry : Bytes)
    (after : List Bytes) :
    (sep.intercalate (before ++ after)).Sublist (sep.intercalate (before ++ entry :: after)) := by
  induction before with
  | nil =>
      cases after with
      | nil => exact List.nil_sublist _
      | cons next rest =>
          rw [List.nil_append, List.nil_append, List.intercalate_cons_cons]
          exact List.sublist_append_right ..
  | cons first rest ih =>
      have hmore : rest ++ entry :: after ≠ [] := by simp
      rw [List.cons_append, List.cons_append, List.intercalate_cons_of_ne_nil hmore]
      by_cases hnil : rest ++ after = []
      · rw [hnil, List.intercalate_singleton, List.append_assoc]
        exact List.sublist_append_left ..
      · rw [List.intercalate_cons_of_ne_nil hnil]
        exact ih.append_left _

/-! ## The level that an entry hides -/

/-- The name of the logger that an entry is for. -/
def entryName (entry : Bytes) : Bytes := (extractKv (charByte '=') entry).1

/-- The name of a level in an entry is not one. -/
def Unrecognized (entry : Bytes) : Prop := recognize (extractKv (charByte '=') entry).2 = none

instance (entry : Bytes) : Decidable (Unrecognized entry) := inferInstanceAs (Decidable (_ = _))

/-- The level that an earlier entry gives to the logger, if this entry is not blank and the
last one of the logger. -/
def hiddenLevel (before : List Bytes) (entry : Bytes) (after : List Bytes) : Option Level :=
  if entry = [] ∨ (OrdMap.lastValue (entryName entry) (keyValsOf after)).isSome then none
  else levelIn (entryName entry) (keyValsOf before)

/-- Without the entry, its own name has the hidden level, and the others what they had. -/
theorem levelIn_delete (before after : List Bytes) {entry : Bytes} (hentry : Unrecognized entry)
    (loggerName : Bytes) :
    levelIn loggerName (keyValsOf (before ++ after)) =
      (levelIn loggerName (keyValsOf (before ++ entry :: after))).or
        (if loggerName = entryName entry then hiddenLevel before entry after else none) := by
  rw [keyValsOf_append, keyValsOf_append, hiddenLevel, levelIn, levelIn, levelIn]
  by_cases hblank : entry = []
  · have hnothing : keyValsOf (entry :: after) = keyValsOf after := by simp [keyValsOf, hblank]
    rw [hnothing, if_pos (Or.inl hblank), ite_self, Option.or_none]
  · have hpair : keyValsOf (entry :: after) =
        [extractKv (charByte '=') entry] ++ keyValsOf after := by simp [keyValsOf, hblank]
    rw [hpair]
    simp only [OrdMap.lastValue_append, OrdMap.lastValue_singleton, hblank, false_or]
    by_cases hname : loggerName = entryName entry
    · rw [if_pos hname, if_pos (show loggerName = (extractKv (charByte '=') entry).1 from hname),
        hname]
      have hvalue : recognize (extractKv (charByte '=') entry).2 = none := hentry
      cases OrdMap.lastValue (entryName entry) (keyValsOf after) with
      | some value => simp
      | none => simp [hvalue]
    · rw [if_neg hname, if_neg (show loggerName ≠ (extractKv (charByte '=') entry).1 from hname),
        Option.or_none, Option.or_none]

/-- A level is hidden from the string as it is. -/
theorem levelIn_entryName {before after : List Bytes} {entry : Bytes}
    (hentry : Unrecognized entry) {level : Level}
    (hhidden : hiddenLevel before entry after = some level) :
    levelIn (entryName entry) (keyValsOf (before ++ entry :: after)) = none := by
  unfold hiddenLevel at hhidden
  split_ifs at hhidden with hshown
  obtain ⟨hblank, hlast⟩ := not_or.mp hshown
  have hpair : keyValsOf (entry :: after) =
      [extractKv (charByte '=') entry] ++ keyValsOf after := by simp [keyValsOf, hblank]
  have hvalue : recognize (extractKv (charByte '=') entry).2 = none := hentry
  rw [Option.not_isSome_iff_eq_none] at hlast
  rw [levelIn, keyValsOf_append, hpair, OrdMap.lastValue_append, OrdMap.lastValue_append, hlast,
    OrdMap.lastValue_singleton,
    if_pos (show entryName entry = (extractKv (charByte '=') entry).1 from rfl)]
  exact hvalue

end Cfg

open Cfg

namespace Registry

variable {φ ε : Type*} [FormatterBase φ]

/-- The registry does not show whether the entry is in the string: nothing is loaded with
or without it; or nothing without it and there is no table to clear; or it does not hide a
level; or it hides a global one that all that follow it have already. -/
def Deletable (r : Registry φ ε) (before : List Bytes) (entry : Bytes) (after : List Bytes) :
    Prop :=
  let input := [comma].intercalate (before ++ entry :: after)
  let shorter := [comma].intercalate (before ++ after)
  input = [] ∨
    if shorter = [] then r.logLevels = .empty
    else ∀ level, hiddenLevel before entry after = some level →
      entryName entry = [] ∧ r.globalLogLevel = level ∧
        ∀ loggerName a, r.get loggerName = some a →
          (readLevels shorter).1.lookup loggerName = none → r.levelOf a = level

/-- A single call against none. -/
theorem sameLevels_nil_iff {r : Registry φ ε} (h : r.Consistent) {levels : OrdMap Bytes Level}
    (hlevels : ∀ loggerName, levels.lookup loggerName = none) :
    SameLevels (r.runLevels [.setLevels levels none]) (r.runLevels []) ↔ r.logLevels = .empty := by
  rw [sameLevels_runLevels_iff h]
  constructor
  · rintro ⟨-, hfuture⟩
    apply OrdMap.ext_lookup
    intro loggerName
    exact (congrArg Prod.fst (hfuture loggerName)).symm.trans (hlevels loggerName)
  · intro hempty
    constructor
    · intro loggerName a _
      rw [List.foldl_cons, LevelCall.existingLevel, LevelCall.entry, hlevels]
      rfl
    · intro loggerName
      have hnone : r.logLevels.lookup loggerName = none := by
        rw [hempty]
        rfl
      rw [List.foldl_cons, LevelCall.futureLevel, LevelCall.entry, hlevels, settings, hnone]
      rfl

/-- Without a global level against with one, over the same table. -/
theorem sameLevels_global_iff {r : Registry φ ε} (h : r.Consistent) (levels : OrdMap Bytes Level)
    (level : Level) :
    SameLevels (r.runLevels [.setLevels levels none]) (r.runLevels [.setLevels levels (some level)])
      ↔ r.globalLogLevel = level ∧ ∀ loggerName a, r.get loggerName = some a →
        levels.lookup loggerName = none → r.levelOf a = level := by
  rw [sameLevels_runLevels_iff h]
  constructor
  · rintro ⟨hexisting, hfuture⟩
    refine ⟨congrArg Prod.snd (hfuture []), ?_⟩
    intro loggerName a hget hnone
    have hlevel := hexisting loggerName a hget
    simp only [List.foldl_cons, List.foldl_nil, LevelCall.existingLevel, LevelCall.entry,
      hnone] at hlevel
    exact hlevel
  · rintro ⟨hglobal, hothers⟩
    constructor
    · intro loggerName a hget
      simp only [List.foldl_cons, List.foldl_nil, LevelCall.existingLevel, LevelCall.entry]
      cases hentry : levels.lookup loggerName with
      | none => exact hothers loggerName a hget hentry
      | some entryLevel => rfl
    · intro loggerName
      exact Prod.ext rfl hglobal

/-- A string that gives a level to a name more. -/
theorem sameLevels_hidden_iff {r : Registry φ ε} (h : r.Consistent) {input shorter : Bytes}
    {hiddenName : Bytes} {level : Level} (hlong : levelIn hiddenName (keyVals input) = none)
    (hshort : levelIn hiddenName (keyVals shorter) = some level)
    (hothers : ∀ loggerName ≠ hiddenName,
      levelIn loggerName (keyVals shorter) = levelIn loggerName (keyVals input)) :
    SameLevels (r.runLevels [levelCall input]) (r.runLevels [levelCall shorter]) ↔
      hiddenName = [] ∧ r.globalLogLevel = level ∧
        ∀ loggerName a, r.get loggerName = some a →
          (readLevels shorter).1.lookup loggerName = none → r.levelOf a = level := by
  by_cases hglobal : hiddenName = []
  · have htables : (readLevels shorter).1 = (readLevels input).1 := by
      apply OrdMap.ext_lookup
      intro loggerName
      rw [lookup_readLevels, lookup_readLevels]
      split_ifs with hname
      · rfl
      · exact hothers loggerName fun heq => hname (heq.trans hglobal)
    have hcall : levelCall input = .setLevels (readLevels input).1 none := by
      rw [levelCall, global_readLevels, ← hglobal, hlong]
    have hcall' : levelCall shorter = .setLevels (readLevels input).1 (some level) := by
      rw [levelCall, global_readLevels, ← hglobal, hshort, htables]
    rw [hcall, hcall', sameLevels_global_iff h, htables, and_iff_right hglobal]
  · refine iff_of_false ?_ fun hset => hglobal hset.1
    intro hsame
    have htable := congrArg (OrdMap.lookup hiddenName) hsame.logLevels
    have hlong' : (readLevels input).1.lookup hiddenName = none := by
      rw [lookup_readLevels, hlong, ite_self]
    have hshort' : (readLevels shorter).1.lookup hiddenName = some level := by
      rw [lookup_readLevels, hshort, if_neg hglobal]
    apply Option.some_ne_none level
    calc some level
        = (readLevels shorter).1.lookup hiddenName := hshort'.symm
      _ = (readLevels input).1.lookup hiddenName := htable.symm
      _ = none := hlong'

/-- Deleting an entry without a level from a string. -/
theorem sameLevels_delete_iff {r : Registry φ ε} (h : r.Consistent) {before after : List Bytes}
    {entry : Bytes} (hcommas : ∀ token ∈ before ++ entry :: after, comma ∉ token)
    (hlength : ([comma].intercalate (before ++ entry :: after)).length ≤ 512)
    (hentry : Unrecognized entry) :
    SameLevels (r.loadLevels ([comma].intercalate (before ++ entry :: after)))
        (r.loadLevels ([comma].intercalate (before ++ after))) ↔
      r.Deletable before entry after := by
  have hlength' := (intercalate_sublist [comma] before entry after).length_le.trans hlength
  have hinput := keyVals_intercalate hcommas
  have hsublist : (before ++ after).Sublist (before ++ entry :: after) :=
    (List.Sublist.refl before).append (List.sublist_cons_self entry after)
  have hshorter := keyVals_intercalate fun token hmem => hcommas token (hsublist.subset hmem)
  have hdelete := levelIn_delete before after hentry
  unfold Deletable
  dsimp only
  generalize hlong : [comma].intercalate (before ++ entry :: after) = input at *
  generalize hshort : [comma].intercalate (before ++ after) = shorter at *
  rw [← hinput, ← hshorter] at hdelete
  rw [loadLevels_eq_runLevels, loadLevels_eq_runLevels]
  by_cases hnil : input = []
  -- Where there is nothing to delete, both strings are the same.
  · have hnil' : shorter = [] := by
      have hle := (intercalate_sublist [comma] before entry after).length_le
      rw [hlong, hshort, hnil] at hle
      exact List.eq_nil_of_length_eq_zero (Nat.le_zero.mp hle)
    rw [hnil, hnil']
    exact iff_of_true (.refl _) (Or.inl rfl)
  rw [levelCalls_eq hnil hlength, or_iff_right hnil]
  split_ifs with hnil'
  · -- The string of no entries gives no levels.
    have hnone (loggerName : Bytes) : levelIn loggerName (keyVals input) = none := by
      have hsame := hdelete loggerName
      rw [hnil'] at hsame
      exact (Option.or_eq_none_iff.mp hsame.symm).1
    have hcall : levelCall input = .setLevels (readLevels input).1 none := by
      rw [levelCall, global_readLevels, hnone]
    rw [hnil', hcall]
    apply sameLevels_nil_iff h
    intro loggerName
    rw [lookup_readLevels, hnone, ite_self]
  rw [levelCalls_eq hnil' hlength']
  -- What counts is whether the entry hides an earlier one of the same name.
  cases hhidden : hiddenLevel before entry after with
  | none =>
      rw [hhidden] at hdelete
      have hsame (loggerName : Bytes) :
          levelIn loggerName (keyVals shorter) = levelIn loggerName (keyVals input) := by
        rw [hdelete, ite_self, Option.or_none]
      rw [levelCall_congr hsame]
      refine iff_of_true (.refl _) ?_
      intro level hlevel
      cases hlevel
  | some level =>
      have hhides := levelIn_entryName hentry hhidden
      rw [← hinput] at hhides
      -- Then the two strings differ for that name, and for no other.
      have hown := hdelete (entryName entry)
      rw [hhides, if_pos rfl, hhidden, Option.none_or] at hown
      have hothers loggerName (hname : loggerName ≠ entryName entry) :
          levelIn loggerName (keyVals shorter) = levelIn loggerName (keyVals input) := by
        rw [hdelete, if_neg hname, Option.or_none]
      rw [sameLevels_hidden_iff h hhides hown hothers]
      constructor
      · intro hset other hother
        obtain rfl := Option.some.inj hother
        exact hset
      · intro hset
        exact hset level rfl

/-- In a registry after any calls, an entry without a level can be deleted from a string that
is loaded exactly if the registry does not show it (`Deletable`). -/
theorem load_levels_unrecognized_iff (defaultFormatter : φ) (defaultLogger colorSink : Addr)
    (o : Objects φ ε) (calls : List (RegistryCall φ ε)) (input : Bytes)
    (hlength : input.length ≤ 512) (before : List Bytes) (entry : Bytes) (after : List Bytes)
    (hsplit : input.splitOn comma = before ++ entry :: after) (hentry : Unrecognized entry) :
    let r := Runs.run step (new defaultFormatter defaultLogger colorSink o) calls
    SameLevels (r.loadLevels input) (r.loadLevels ([comma].intercalate (before ++ after))) ↔
      r.Deletable before entry after := by
  intro r
  have hr : r.Consistent :=
    (consistent_new defaultFormatter defaultLogger colorSink o).run calls
  have hinput : [comma].intercalate (before ++ entry :: after) = input := by
    rw [← hsplit, List.intercalate_splitOn]
  have hcommas token (hmem : token ∈ before ++ entry :: after) : comma ∉ token := by
    rw [← hsplit] at hmem
    exact not_mem_of_mem_splitOn hmem
  have hiff := sameLevels_delete_iff hr hcommas (hinput.symm ▸ hlength) hentry
  rw [hinput] at hiff
  exact hiff

/-- Loggers with the name `x`. -/
def namedX : Objects Unit Unit :=
  { logger := fun _ => { name := ascii "x", sinks := [] }, formatter := fun _ => () }

/-- The entry of a logger without a level, and no other of that logger. -/
theorem load_levels_unrecognized_deleted :
    let r := Runs.run step (new () 0 1 namedX) [.initializeLogger 2]
    SameLevels (r.loadLevels (ascii "x=junk,warn")) (r.loadLevels (ascii "warn")) := by
  have hiff := load_levels_unrecognized_iff () 0 1 namedX [.initializeLogger 2]
    (ascii "x=junk,warn") (by decide) [] (ascii "x=junk") [ascii "warn"] (by decide) (by decide)
  have hnone : hiddenLevel [] (ascii "x=junk") [ascii "warn"] = none := by decide
  refine hiff.mpr (Or.inr ?_)
  rw [if_neg (by decide)]
  intro level hlevel
  cases hnone.symm.trans hlevel

/-- The entry takes the level of an earlier one of its logger, or the global level. -/
theorem load_levels_unrecognized_hides :
    let r := Runs.run step (new () 0 1 namedX) [.initializeLogger 2]
    (ascii "x=debug,x=junk").splitOn comma = [ascii "x=debug"] ++ ascii "x=junk" :: [] ∧
      Unrecognized (ascii "x=junk") ∧
      (r.loadLevels (ascii "x=debug,x=junk")).levelOf 2 = .info ∧
      (r.loadLevels (ascii "x=debug")).levelOf 2 = .debug ∧
      ¬ SameLevels (r.loadLevels (ascii "x=debug,x=junk"))
        (r.loadLevels ([comma].intercalate ([ascii "x=debug"] ++ []))) ∧
      Unrecognized (ascii " ") ∧
      (r.loadLevels (ascii "warn, ")).globalLogLevel = .info ∧
      (r.loadLevels (ascii "warn")).globalLogLevel = .warn := by
  refine ⟨by decide, by decide, by decide, by decide, ?_, by decide, by decide, by decide⟩
  intro hsame
  exact absurd (hsame.loggers (ascii "x")) (by decide)

end Registry

end Structlog
