import Mathlib.Data.List.DropRight
import Structlog.RegistryLevels

/-!
# `load_levels`

A string of levels is a list of entries with a comma between two of them, each the name of
a logger and the name of a level, or the name of a level alone for the global one.  The
entries are first collected into a map by the name of the logger, where the last one of
each name stays, and only then are the names of levels looked at.

So the string stands for one call of `set_levels`, with the level that the last entry of
each name gives (`levelIn`, `lookup_readLevels`).  `SameLevels` compares two registries by
what such a call changes.
-/

namespace Structlog

open Lib

/-! ## The code -/

namespace Level

/-- `level_string_views`. -/
def levelStringViews : List Level := [trace, debug, info, warn, err, critical, off]

/-- `level::from_str`. -/
def fromStr (name : Bytes) : Level :=
  match levelStringViews.find? fun level => level.toStringView = name with
  | some level => level
  | none =>
      -- check also for "warn" and "err" before giving up..
      if name = ascii "warn" then warn
      else if name = ascii "err" then err
      else off

end Level

namespace Cfg

/-- `to_lower_`. -/
def toLower (str : Bytes) : Bytes :=
  str.map fun ch => if charByte 'A' ≤ ch ∧ ch ≤ charByte 'Z' then ch + 32 else ch

def spaces : Bytes := ascii " \n\r\t"

/-- `trim_`. -/
def trim (str : Bytes) : Bytes := (str.rdropWhile (· ∈ spaces)).dropWhile (· ∈ spaces)

/-- `extract_kv_`. -/
def extractKv (sep : UInt8) (str : Bytes) : Bytes × Bytes :=
  match str.findIdx? (· = sep) with
  | none => (trim [], trim str)
  | some n => (trim (str.take n), trim (str.drop (n + 1)))

def comma : UInt8 := charByte ','

/-- The tokens that the loop in `extract_key_vals_` goes on with.  An empty one at the end,
which `getline` would not read, is dropped with the others. -/
def tokens (str : Bytes) : List Bytes := (str.splitOn comma).filter (· ≠ [])

/-- What the loop writes into the map, in order. -/
def keyVals (str : Bytes) : List (Bytes × Bytes) := (tokens str).map (extractKv (charByte '='))

/-- `extract_key_vals_`. -/
def extractKeyVals (str : Bytes) : OrdMap Bytes Bytes := OrdMap.empty.insertAll (keyVals str)

/-- The level of a name, if it is one. -/
def recognize (value : Bytes) : Option Level :=
  let levelName := toLower value
  let level := Level.fromStr levelName
  if level = .off ∧ levelName ≠ ascii "off" then none else some level

/-- The loop in `load_levels` for one name: the levels, and the global level if it has been
found. -/
def readLevel (acc : OrdMap Bytes Level × Option Level) (nameLevel : Bytes × Bytes) :
    OrdMap Bytes Level × Option Level :=
  match recognize nameLevel.2 with
  | none => acc -- ignore unrecognized level names
  | some level =>
      -- no logger name indicate global level
      if nameLevel.1 = [] then (acc.1, some level) else (acc.1.insert nameLevel.1 level, acc.2)

/-- The loop in `load_levels`.  The names differ, so that their order does not matter. -/
def readLevels (input : Bytes) : OrdMap Bytes Level × Option Level :=
  (extractKeyVals input).entries.foldl readLevel (.empty, none)

/-- The call of `set_levels` that `load_levels` makes. -/
def levelCall (input : Bytes) : LevelCall := .setLevels (readLevels input).1 (readLevels input).2

end Cfg

open Cfg

namespace Registry

variable {φ ε : Type*}

def loadLevels (input : Bytes) (r : Registry φ ε) : Registry φ ε :=
  if input = [] ∨ 512 < input.length then r
  else r.setLevels (readLevels input).1 (readLevels input).2

/-- Two registries with the same levels: of the registered loggers, in the table and the
global one. -/
structure SameLevels (r r' : Registry φ ε) : Prop where
  loggers : ∀ loggerName,
    (r.get loggerName).map r.levelOf = (r'.get loggerName).map r'.levelOf
  logLevels : r.logLevels = r'.logLevels
  globalLogLevel : r.globalLogLevel = r'.globalLogLevel

theorem SameLevels.refl (r : Registry φ ε) : SameLevels r r := ⟨fun _ => rfl, rfl, rfl⟩

end Registry

/-! ## What a string says -/

namespace Cfg

/-- The level that the last entry of a name gives; of the empty name, the global one. -/
def levelIn (loggerName : Bytes) (entries : List (Bytes × Bytes)) : Option Level :=
  (OrdMap.lastValue loggerName entries).bind recognize

/-- What has been read for a name, of the empty name the global level. -/
def levelRead (loggerName : Bytes) (acc : OrdMap Bytes Level × Option Level) : Option Level :=
  if loggerName = [] then acc.2 else acc.1.lookup loggerName

theorem levelRead_readLevel (loggerName : Bytes) (acc : OrdMap Bytes Level × Option Level)
    (nameLevel : Bytes × Bytes) :
    levelRead loggerName (readLevel acc nameLevel) =
      if loggerName = nameLevel.1 then (recognize nameLevel.2).or (levelRead loggerName acc)
      else levelRead loggerName acc := by
  unfold readLevel levelRead
  cases recognize nameLevel.2 with
  | none => simp
  | some level =>
      dsimp only
      by_cases hglobal : nameLevel.1 = []
      · rw [if_pos hglobal, hglobal]
        split_ifs <;> rfl
      · rw [if_neg hglobal, OrdMap.lookup_insert]
        split_ifs with hempty hname
        · exact absurd (hname.symm.trans hempty) hglobal
        · rfl
        · rfl
        · rfl

/-- With different names, the loop gives each the level of its entry. -/
theorem levelRead_foldl (loggerName : Bytes) {entries : List (Bytes × Bytes)}
    (hkeys : (entries.map Prod.fst).Nodup) (acc : OrdMap Bytes Level × Option Level) :
    levelRead loggerName (entries.foldl readLevel acc) =
      (levelIn loggerName entries).or (levelRead loggerName acc) := by
  induction entries using List.reverseRecOn with
  | nil => rfl
  | append_singleton entries entry ih =>
      rw [List.map_append] at hkeys
      obtain ⟨hkeys, -, hnew⟩ := List.nodup_append.mp hkeys
      rw [List.foldl_append, List.foldl_cons, List.foldl_nil, levelRead_readLevel, ih hkeys,
        levelIn, levelIn, OrdMap.lastValue_append, OrdMap.lastValue_singleton]
      split_ifs with hname
      · have habsent : OrdMap.lastValue loggerName entries = none := by
          by_contra hsome
          obtain ⟨other, hother⟩ := Option.ne_none_iff_exists'.mp hsome
          have hmem := (OrdMap.lastValue_eq_some_iff hkeys).mp hother
          exact hnew _ (List.mem_map_of_mem hmem) entry.1 (List.mem_singleton_self _) hname
        rw [habsent]
        rfl
      · rfl

/-- The entries of the map may come in any order. -/
theorem levelRead_inOrder (loggerName : Bytes) {input : Bytes} {order : List (Bytes × Bytes)}
    (horder : order.Perm (extractKeyVals input).entries) :
    levelRead loggerName (order.foldl readLevel (.empty, none)) =
      levelIn loggerName (keyVals input) := by
  have hkeys : (order.map Prod.fst).Nodup :=
    (horder.map Prod.fst).nodup_iff.mpr ((extractKeyVals input).sorted.imp ne_of_lt)
  have hlast : OrdMap.lastValue loggerName order = OrdMap.lastValue loggerName (keyVals input) := by
    apply Option.ext
    intro value
    rw [OrdMap.lastValue_eq_some_iff hkeys, horder.mem_iff, OrdMap.mem_entries_iff, extractKeyVals,
      OrdMap.lookup_insertAll, OrdMap.lookup_empty, Option.or_none]
  have hempty : levelRead loggerName (.empty, none) = none := by
    rw [levelRead, OrdMap.lookup_empty, ite_self]
  rw [levelRead_foldl loggerName hkeys, levelIn, hlast, hempty, Option.or_none, levelIn]

/-- The table has no entry for the empty name. -/
theorem lookup_foldl_nil (entries : List (Bytes × Bytes))
    {acc : OrdMap Bytes Level × Option Level} (hacc : acc.1.lookup [] = none) :
    (entries.foldl readLevel acc).1.lookup [] = none := by
  induction entries generalizing acc with
  | nil => exact hacc
  | cons entry rest ih =>
      apply ih
      unfold readLevel
      split
      · exact hacc
      · split_ifs with hglobal
        · exact hacc
        · rw [OrdMap.lookup_insert, if_neg (Ne.symm hglobal)]
          exact hacc

theorem lookup_inOrder (loggerName : Bytes) {input : Bytes} {order : List (Bytes × Bytes)}
    (horder : order.Perm (extractKeyVals input).entries) :
    (order.foldl readLevel (.empty, none)).1.lookup loggerName =
      if loggerName = [] then none else levelIn loggerName (keyVals input) := by
  split_ifs with hname
  · rw [hname]
    exact lookup_foldl_nil _ rfl
  · rw [← levelRead_inOrder loggerName horder, levelRead, if_neg hname]

theorem lookup_readLevels (loggerName input : Bytes) :
    (readLevels input).1.lookup loggerName =
      if loggerName = [] then none else levelIn loggerName (keyVals input) :=
  lookup_inOrder loggerName (.refl _)

theorem global_readLevels (input : Bytes) : (readLevels input).2 = levelIn [] (keyVals input) :=
  levelRead_inOrder [] (.refl _)

end Cfg

/-! ## What it does to a registry -/

namespace Registry

variable {φ ε : Type*} [FormatterBase φ]

theorem Consistent.run {r : Registry φ ε} (h : r.Consistent) (calls : List (RegistryCall φ ε)) :
    (Runs.run Registry.step r calls).Consistent :=
  (Runs.invariant_of_steps (C := fun _ _ => True) (fun _ c h _ => h.step c) h calls
    fun _ _ => trivial).1

/-- The calls of `set_levels` that `load_levels` makes: one, or none. -/
def levelCalls (input : Bytes) : List LevelCall :=
  if input = [] ∨ 512 < input.length then [] else [levelCall input]

theorem loadLevels_eq_runLevels (input : Bytes) (r : Registry φ ε) :
    r.loadLevels input = r.runLevels (levelCalls input) := by
  unfold loadLevels levelCalls
  split_ifs <;> rfl

theorem levelCalls_eq {input : Bytes} (hne : input ≠ []) (hlength : input.length ≤ 512) :
    levelCalls input = [levelCall input] := by
  rw [levelCalls, if_neg]
  rintro (hnil | hlong)
  · exact hne hnil
  · omega

/-- The call depends on the levels that the string gives alone. -/
theorem levelCall_congr {input input' : Bytes}
    (h : ∀ loggerName, levelIn loggerName (keyVals input) = levelIn loggerName (keyVals input')) :
    levelCall input = levelCall input' := by
  have htables : (readLevels input).1 = (readLevels input').1 := by
    apply OrdMap.ext_lookup
    intro loggerName
    rw [lookup_readLevels, lookup_readLevels, h]
  rw [levelCall, levelCall, htables, global_readLevels, global_readLevels, h]

theorem runLevels_append (r : Registry φ ε) (first second : List LevelCall) :
    r.runLevels (first ++ second) = (r.runLevels first).runLevels second := by
  rw [runLevels, List.map_append, Runs.run, List.foldl_append]
  rfl

theorem get_runLevels (loggerName : Bytes) (r : Registry φ ε) (calls : List LevelCall) :
    (r.runLevels calls).get loggerName = r.get loggerName := by
  induction calls generalizing r with
  | nil => rfl
  | cons c rest ih =>
      rw [runLevels_cons, ih]
      cases c <;> rfl

/-- Two runs leave the same levels exactly if they do the same to every registered logger
and to the settings of every name. -/
theorem sameLevels_runLevels_iff {r : Registry φ ε} (h : r.Consistent)
    (calls calls' : List LevelCall) :
    SameLevels (r.runLevels calls) (r.runLevels calls') ↔
      (∀ loggerName a, r.get loggerName = some a →
        calls.foldl (LevelCall.existingLevel loggerName) (r.levelOf a) =
          calls'.foldl (LevelCall.existingLevel loggerName) (r.levelOf a)) ∧
      ∀ loggerName, calls.foldl (LevelCall.futureLevel loggerName) (r.settings loggerName) =
        calls'.foldl (LevelCall.futureLevel loggerName) (r.settings loggerName) := by
  constructor
  · intro hsame
    constructor
    · intro loggerName a hget
      have hlevel := hsame.loggers loggerName
      rw [get_runLevels, get_runLevels, hget] at hlevel
      rw [← levelOf_runLevels h hget, ← levelOf_runLevels h hget]
      exact Option.some.inj hlevel
    · intro loggerName
      rw [← settings_runLevels, ← settings_runLevels, settings, settings, hsame.logLevels,
        hsame.globalLogLevel]
  · rintro ⟨hexisting, hfuture⟩
    have hsettings loggerName := hfuture loggerName
    simp only [← settings_runLevels] at hsettings
    constructor
    case loggers =>
      intro loggerName
      rw [get_runLevels, get_runLevels]
      cases hget : r.get loggerName with
      | none => rfl
      | some a =>
          rw [Option.map_some, Option.map_some, levelOf_runLevels h hget,
            levelOf_runLevels h hget, hexisting loggerName a hget]
    case logLevels =>
      apply OrdMap.ext_lookup
      intro loggerName
      exact congrArg Prod.fst (hsettings loggerName)
    case globalLogLevel => exact congrArg Prod.snd (hsettings [])

end Registry

end Structlog
