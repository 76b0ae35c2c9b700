import Structlog.UnrecognizedLevels

/-!
# Strings of levels that are printed

A table of levels can be printed as a string for `load_levels`, with the global level among
the entries, blanks around names and levels, and the levels in any case (`printLevels`).
Loading it gives the table back (`Loaded`).

The two maps that are gone through on the way have no order of their own, so the code is
stated here with the orders as arguments (`loadLevelsInOrder`).
-/

namespace Structlog

open Lib

namespace Cfg

/-! ## Printing -/

/-- Blanks as `trim_` knows them. -/
abbrev Blanks := { bytes : Bytes // ∀ c ∈ bytes, c ∈ spaces }

def equalsSign : UInt8 := charByte '='

/-- A name of a logger that an entry can have. -/
structure EntryName where
  bytes : Bytes
  nonempty : bytes ≠ []
  comma : Cfg.comma ∉ bytes
  equalsSign : Cfg.equalsSign ∉ bytes
  first : ∀ c ∈ bytes.head?, c ∉ spaces
  last : ∀ c ∈ bytes.getLast?, c ∉ spaces

/-- What `from_str` takes for a level. -/
def levelNames : Level → List Bytes
  | .warn => [Level.warn.toStringView, ascii "warn"]
  | .err => [Level.err.toStringView, ascii "err"]
  | level => [level.toStringView]

/-- The small letters of a name, some of them as capitals. -/
def AnyCase (text name : Bytes) : Prop := List.Forall₂ (fun c d => c = d ∨ c + 32 = d) text name

instance (text name : Bytes) : Decidable (AnyCase text name) :=
  inferInstanceAs (Decidable (List.Forall₂ _ text name))

structure LevelText where
  level : Level
  text : Bytes
  spelled : ∃ name ∈ levelNames level, AnyCase text name

/-- What comes before the level in an entry.  The entry of the global level has no name, with
or without the `=`. -/
inductive EntryKey
  | named (before : Blanks) (name : EntryName) (after : Blanks)
  | unnamed (blanks : Blanks)
  | absent

structure LevelEntry where
  key : EntryKey
  before : Blanks
  level : LevelText
  after : Blanks

def EntryKey.name : EntryKey → Bytes
  | named _ name _ => name.bytes
  | _ => []

def EntryKey.print : EntryKey → Bytes
  | named before name after => before.1 ++ name.bytes ++ after.1 ++ [equalsSign]
  | unnamed blanks => blanks.1 ++ [equalsSign]
  | absent => []

/-- The name of the logger, empty for the global level. -/
def LevelEntry.name (e : LevelEntry) : Bytes := e.key.name

def LevelEntry.print (e : LevelEntry) : Bytes :=
  e.key.print ++ (e.before.1 ++ e.level.text ++ e.after.1)

def printLevels (entries : List LevelEntry) : Bytes :=
  [comma].intercalate (entries.map LevelEntry.print)

/-- What the entries say. -/
def pairs (entries : List LevelEntry) : List (Bytes × Level) :=
  entries.map fun e => (e.name, e.level.level)

/-- The level that is said for a name, of the empty name the global one. -/
def levelFor (entries : List LevelEntry) (loggerName : Bytes) : Option Level :=
  OrdMap.lastValue loggerName (pairs entries)

/-! ## Reading it back -/

/-- `trim_` takes the blanks away from something that has none at its ends. -/
theorem trim_blanks (before after : Blanks) {text : Bytes}
    (hfirst : ∀ c ∈ text.head?, c ∉ spaces) (hlast : ∀ c ∈ text.getLast?, c ∉ spaces) :
    trim (before.1 ++ text ++ after.1) = text := by
  have hbefore : ∀ c ∈ before.1, decide (c ∈ spaces) = true := fun c hc =>
    decide_eq_true (before.2 c hc)
  have hafter : ∀ c ∈ after.1.reverse, decide (c ∈ spaces) = true := fun c hc =>
    decide_eq_true (after.2 c (List.mem_reverse.mp hc))
  have hright : (before.1 ++ text ++ after.1).rdropWhile (· ∈ spaces) =
      (before.1 ++ text).rdropWhile (· ∈ spaces) := by
    rw [List.rdropWhile, List.reverse_append, List.dropWhile_append_of_pos hafter, List.rdropWhile]
  rw [trim, hright]
  cases text with
  | nil =>
      rw [List.append_nil, List.rdropWhile_eq_nil_iff.mpr hbefore, List.dropWhile_nil]
  | cons first rest =>
      have hkept : (before.1 ++ first :: rest).rdropWhile (· ∈ spaces) =
          before.1 ++ first :: rest := by
        rw [List.rdropWhile_eq_self_iff]
        intro hne hblank
        refine hlast ((before.1 ++ first :: rest).getLast hne) ?_ (of_decide_eq_true hblank)
        rw [List.getLast_append_of_ne_nil hne (List.cons_ne_nil first rest)]
        exact List.getLast?_eq_some_getLast (List.cons_ne_nil first rest)
      have hfirst : ¬ decide (first ∈ spaces) = true := fun hblank =>
        hfirst first rfl (of_decide_eq_true hblank)
      rw [hkept, List.dropWhile_append_of_pos hbefore,
        List.dropWhile_cons_of_neg (p := fun c => decide (c ∈ spaces)) hfirst]

theorem extractKv_absent {str : Bytes} (h : equalsSign ∉ str) :
    extractKv equalsSign str = ([], trim str) := by
  have hnone : str.findIdx? (· = equalsSign) = none := List.findIdx?_eq_none_iff.mpr fun c hc =>
    decide_eq_false fun heq => h (heq ▸ hc)
  rw [extractKv, hnone]
  rfl

theorem extractKv_append {first : Bytes} (h : equalsSign ∉ first) (rest : Bytes) :
    extractKv equalsSign (first ++ [equalsSign] ++ rest) = (trim first, trim rest) := by
  have hnone : first.findIdx? (· = equalsSign) = none := List.findIdx?_eq_none_iff.mpr fun c hc =>
    decide_eq_false fun heq => h (heq ▸ hc)
  have hsome : (first ++ [equalsSign] ++ rest).findIdx? (· = equalsSign) = some first.length := by
    rw [List.append_assoc, List.findIdx?_append, hnone, List.singleton_append, List.findIdx?_cons]
    simp
  rw [extractKv, hsome, List.append_assoc]
  dsimp only
  rw [List.take_left, List.singleton_append, List.append_cons, List.drop_left' (by simp)]

/-! ### Levels -/

/-- The names of the levels are small letters. -/
theorem small_of_mem_levelNames {level : Level} {name : Bytes} (hname : name ∈ levelNames level) :
    name ≠ [] ∧ ∀ c ∈ name, charByte 'a' ≤ c ∧ c ≤ charByte 'z' := by
  have hnames : ∀ name ∈ levelNames level, name ≠ [] ∧
      name.all (fun c => decide (charByte 'a' ≤ c ∧ c ≤ charByte 'z')) = true := by
    cases level <;> decide
  obtain ⟨hne, hall⟩ := hnames name hname
  exact ⟨hne, forall_mem_of_all hall⟩

theorem letter_of_case {c d : UInt8} (hcase : c = d ∨ c + 32 = d)
    (hsmall : charByte 'a' ≤ d ∧ d ≤ charByte 'z') :
    (if charByte 'A' ≤ c ∧ c ≤ charByte 'Z' then c + 32 else c) = d ∧
      charByte 'A' ≤ c ∧ c ≤ charByte 'z' := by
  have hA : (charByte 'A').toNat = 65 := rfl
  have hZ : (charByte 'Z').toNat = 90 := rfl
  have ha : (charByte 'a').toNat = 97 := rfl
  have hz : (charByte 'z').toNat = 122 := rfl
  simp only [UInt8.le_iff_toNat_le, hA, hZ, ha, hz] at hsmall ⊢
  rcases hcase with rfl | rfl
  · rw [if_neg (by omega)]
    exact ⟨rfl, by omega, hsmall.2⟩
  · have hsum : (c + 32).toNat = (c.toNat + 32) % 256 := UInt8.toNat_add c 32
    have hbound := c.toNat_lt
    rw [if_pos (by omega)]
    exact ⟨rfl, by omega, by omega⟩

/-- A text in any case is put into small letters again. -/
theorem letter_of_anyCase {text name : Bytes} (h : AnyCase text name)
    (hsmall : ∀ c ∈ name, charByte 'a' ≤ c ∧ c ≤ charByte 'z') :
    toLower text = name ∧ ∀ c ∈ text, charByte 'A' ≤ c ∧ c ≤ charByte 'z' := by
  induction h with
  | nil => exact ⟨rfl, fun c hc => absurd hc List.not_mem_nil⟩
  | @cons c d text name hcase hrest ih =>
      obtain ⟨hd, hsmall⟩ := List.forall_mem_cons.mp hsmall
      obtain ⟨hlower, hletters⟩ := ih hsmall
      obtain ⟨hc, hletter⟩ := letter_of_case hcase hd
      exact ⟨congrArg₂ List.cons hc hlower, List.forall_mem_cons.mpr ⟨hletter, hletters⟩⟩

theorem LevelText.text_ne_nil (level : LevelText) : level.text ≠ [] := by
  obtain ⟨name, hname, hcase⟩ := level.spelled
  rintro hnil
  rw [hnil] at hcase
  cases hcase
  exact (small_of_mem_levelNames hname).1 rfl

theorem LevelText.letters (level : LevelText) :
    ∀ c ∈ level.text, charByte 'A' ≤ c ∧ c ≤ charByte 'z' := by
  obtain ⟨name, hname, hcase⟩ := level.spelled
  exact (letter_of_anyCase hcase (small_of_mem_levelNames hname).2).2

/-- The level of a name in any case is found. -/
theorem LevelText.recognize_text (level : LevelText) : recognize level.text = some level.level := by
  obtain ⟨name, hname, hcase⟩ := level.spelled
  have hlower := (letter_of_anyCase hcase (small_of_mem_levelNames hname).2).1
  rw [recognize, hlower]
  clear hcase hlower
  revert name
  cases level.level <;> decide

theorem LevelText.not_blank (level : LevelText) : ∀ c ∈ level.text, c ∉ spaces := by
  have hblanks : ∀ c ∈ spaces, ¬ charByte 'A' ≤ c := forall_mem_of_all (by decide)
  exact fun c hc hblank => hblanks c hblank (level.letters c hc).1

/-! ### Entries -/

theorem Blanks.not_mem (blanks : Blanks) {c : UInt8} (hc : c ∉ spaces) : c ∉ blanks.1 :=
  fun hmem => hc (blanks.2 c hmem)

theorem LevelEntry.not_mem_level (e : LevelEntry) {c : UInt8} (hblank : c ∉ spaces)
    (hletter : ¬ charByte 'A' ≤ c) : c ∉ e.before.1 ++ e.level.text ++ e.after.1 := by
  rw [List.mem_append, List.mem_append]
  rintro ((hmem | hmem) | hmem)
  · exact e.before.not_mem hblank hmem
  · exact hletter (e.level.letters c hmem).1
  · exact e.after.not_mem hblank hmem

theorem LevelEntry.comma_not_mem_print (e : LevelEntry) : comma ∉ e.print := by
  have hblank : comma ∉ spaces := by decide
  have hne : comma ∉ [equalsSign] := by decide
  have hkey : comma ∉ e.key.print := by
    cases e.key with
    | named before name after =>
        rw [EntryKey.print, List.mem_append, List.mem_append, List.mem_append]
        rintro (((hmem | hmem) | hmem) | hmem)
        · exact before.not_mem hblank hmem
        · exact name.comma hmem
        · exact after.not_mem hblank hmem
        · exact hne hmem
    | unnamed blanks =>
        rw [EntryKey.print, List.mem_append]
        exact fun hmem => hmem.elim (blanks.not_mem hblank) hne
    | absent => exact List.not_mem_nil
  rw [LevelEntry.print, List.mem_append]
  exact fun hmem => hmem.elim hkey (e.not_mem_level hblank (by decide))

/-- An entry is read as its name and its level. -/
theorem LevelEntry.extractKv_print (e : LevelEntry) :
    extractKv equalsSign e.print = (e.name, e.level.text) := by
  have hblank : equalsSign ∉ spaces := by decide
  have hlevel : trim (e.before.1 ++ e.level.text ++ e.after.1) = e.level.text :=
    trim_blanks e.before e.after
      (fun c hc => e.level.not_blank c (List.mem_of_mem_head? hc))
      (fun c hc => e.level.not_blank c (List.mem_of_mem_getLast? hc))
  rw [LevelEntry.print, LevelEntry.name]
  cases e.key with
  | named before name after =>
      have hfirst : equalsSign ∉ before.1 ++ name.bytes ++ after.1 := by
        rw [List.mem_append, List.mem_append]
        rintro ((hmem | hmem) | hmem)
        · exact before.not_mem hblank hmem
        · exact name.equalsSign hmem
        · exact after.not_mem hblank hmem
      rw [EntryKey.print, extractKv_append hfirst, hlevel,
        trim_blanks before after name.first name.last]
      rfl
  | unnamed blanks =>
      have hnothing : trim (blanks.1 ++ [] ++ []) = [] :=
        trim_blanks blanks ⟨[], fun c hc => absurd hc List.not_mem_nil⟩ (fun c hc => nomatch hc)
          (fun c hc => nomatch hc)
      rw [List.append_nil, List.append_nil] at hnothing
      rw [EntryKey.print, extractKv_append (blanks.not_mem hblank), hlevel, hnothing]
      rfl
  | absent =>
      rw [EntryKey.print, List.nil_append,
        extractKv_absent (e.not_mem_level hblank (by decide)), hlevel]
      rfl

theorem LevelEntry.print_ne_nil (e : LevelEntry) : e.print ≠ [] := by
  rw [LevelEntry.print]
  simp [e.level.text_ne_nil]

/-- A printed string is read as its entries. -/
theorem keyVals_printLevels (entries : List LevelEntry) :
    keyVals (printLevels entries) = entries.map fun e => (e.name, e.level.text) := by
  have hcommas : ∀ text ∈ entries.map LevelEntry.print, comma ∉ text := by
    rw [List.forall_mem_map]
    exact fun e _ => e.comma_not_mem_print
  have hprinted : ∀ text ∈ entries.map LevelEntry.print, text ≠ [] := by
    rw [List.forall_mem_map]
    exact fun e _ => e.print_ne_nil
  rw [printLevels, keyVals_intercalate hcommas, keyValsOf,
    List.filter_eq_self.mpr fun text htext => decide_eq_true (hprinted text htext), List.map_map]
  exact List.map_congr_left fun e _ => e.extractKv_print

theorem levelFor_eq_some_iff {entries : List LevelEntry}
    (hnames : (entries.map LevelEntry.name).Nodup) {loggerName : Bytes} {logLevel : Level} :
    levelFor entries loggerName = some logLevel ↔ (loggerName, logLevel) ∈ pairs entries := by
  refine OrdMap.lastValue_eq_some_iff ?_
  rw [pairs, List.map_map]
  exact hnames

/-- The level of a name is that of its entry. -/
theorem levelIn_printLevels {entries : List LevelEntry}
    (hnames : (entries.map LevelEntry.name).Nodup) (loggerName : Bytes) :
    levelIn loggerName (keyVals (printLevels entries)) = levelFor entries loggerName := by
  have hkeys : ((entries.map fun e => (e.name, e.level.text)).map Prod.fst).Nodup := by
    rw [List.map_map]
    exact hnames
  apply Option.ext
  intro logLevel
  rw [keyVals_printLevels, levelIn, levelFor_eq_some_iff hnames, Option.bind_eq_some_iff]
  constructor
  · rintro ⟨text, htext, hlevel⟩
    obtain ⟨e, he, hentry⟩ := List.mem_map.mp ((OrdMap.lastValue_eq_some_iff hkeys).mp htext)
    obtain ⟨rfl, rfl⟩ := Prod.mk.inj hentry
    rw [e.level.recognize_text] at hlevel
    exact List.mem_map.mpr ⟨e, he, Prod.ext rfl (Option.some.inj hlevel)⟩
  · intro hmem
    obtain ⟨e, he, hentry⟩ := List.mem_map.mp hmem
    obtain ⟨rfl, rfl⟩ := Prod.mk.inj hentry
    exact ⟨e.level.text, (OrdMap.lastValue_eq_some_iff hkeys).mpr (List.mem_map_of_mem he),
      e.level.recognize_text⟩

end Cfg

open Cfg

namespace Registry

variable {φ ε : Type*}

/-! ## Loading it -/

/-- `set_levels`, with the order in which it goes through the loggers. -/
def setLevelsInOrder (loggers : List (Bytes × Addr)) (levels : OrdMap Bytes Level)
    (globalLevel : Option Level) (r : Registry φ ε) : Registry φ ε :=
  { r with
    objects := r.objects.eachLogger (levelled levels globalLevel) loggers
    logLevels := levels
    globalLogLevel := globalLevel.getD r.globalLogLevel }

/-- `load_levels`, with the orders in which it goes through the entries and the loggers. -/
def loadLevelsInOrder (keyVals : List (Bytes × Bytes)) (loggers : List (Bytes × Addr))
    (input : Bytes) (r : Registry φ ε) : Registry φ ε :=
  if input = [] ∨ 512 < input.length then r
  else
    let read := keyVals.foldl readLevel (.empty, none)
    r.setLevelsInOrder loggers read.1 read.2

/-- In the orders that the maps here have, this is `loadLevels`. -/
theorem loadLevelsInOrder_entries (input : Bytes) (r : Registry φ ε) :
    r.loadLevelsInOrder (extractKeyVals input).entries r.loggers.entries input =
      r.loadLevels input := rfl

/-- A registry after the entries have been loaded: the table holds what they say by name, the
loggers have the levels that are said for them, and nothing else is changed. -/
structure Loaded (entries : List LevelEntry) (r r' : Registry φ ε) : Prop where
  logLevels : ∀ loggerName logLevel, r'.logLevels.lookup loggerName = some logLevel ↔
    loggerName ≠ [] ∧ (loggerName, logLevel) ∈ pairs entries
  globalLogLevel : r'.globalLogLevel = (levelFor entries []).getD r.globalLogLevel
  registered : ∀ loggerName a, r.get loggerName = some a → r'.objects.logger a =
    { r.objects.logger a with
      level := ((levelFor entries loggerName).or (levelFor entries [])).getD (r.levelOf a) }
  others : ∀ a, (∀ loggerName, r.get loggerName ≠ some a) →
    r'.objects.logger a = r.objects.logger a
  rest : r' = { r with
    objects := { r.objects with logger := r'.objects.logger }
    logLevels := r'.logLevels
    globalLogLevel := r'.globalLogLevel }

theorem levelled_eq (levels : OrdMap Bytes Level) (globalLevel : Option Level)
    (loggerName : Bytes) (l : LoggerObject ε) :
    levelled levels globalLevel loggerName l =
      { l with level := ((levels.lookup loggerName).or globalLevel).getD l.level } := by
  unfold levelled
  cases levels.lookup loggerName with
  | some logLevel => rfl
  | none => cases globalLevel <;> rfl

/-- Only the loggers are touched. -/
theorem eachLogger_eq (act : Bytes → LoggerObject ε → LoggerObject ε)
    (entries : List (Bytes × Addr)) (o : Objects φ ε) :
    o.eachLogger act entries = { o with logger := (o.eachLogger act entries).logger } := by
  induction entries generalizing o with
  | nil => rfl
  | cons entry rest ih => exact ih _

theorem Loaded.inOrder {r : Registry φ ε} (hr : r.Consistent) {entries : List LevelEntry}
    (hne : entries ≠ []) (hnames : (entries.map LevelEntry.name).Nodup)
    (hlength : (printLevels entries).length ≤ 512) {keyVals : List (Bytes × Bytes)}
    (hkeyVals : keyVals.Perm (extractKeyVals (printLevels entries)).entries)
    {loggers : List (Bytes × Addr)} (hloggers : loggers.Perm r.loggers.entries) :
    Loaded entries r (r.loadLevelsInOrder keyVals loggers (printLevels entries)) := by
  -- The string is neither refused as empty nor as too long.
  have hprinted : ¬ (printLevels entries = [] ∨ 512 < (printLevels entries).length) := by
    rintro (hnil | hlong)
    · have hkeys := keyVals_printLevels entries
      rw [hnil] at hkeys
      exact hne (List.map_eq_nil_iff.mp hkeys.symm)
    · omega
  -- The order of the entries does not matter, as no name occurs twice.
  have htable (loggerName : Bytes) := lookup_inOrder loggerName hkeyVals
  have hglobal : (keyVals.foldl readLevel (.empty, none)).2 = levelFor entries [] :=
    (levelRead_inOrder [] hkeyVals).trans (levelIn_printLevels hnames [])
  simp only [levelIn_printLevels hnames] at htable
  rw [loadLevelsInOrder, if_neg hprinted]
  dsimp only
  rw [hglobal]
  generalize (keyVals.foldl readLevel (.empty, none)).1 = levels at htable
  -- Nor does that of the loggers: each is set once.
  have hnodup : (loggers.map Prod.snd).Nodup :=
    (hloggers.map Prod.snd).nodup_iff.mpr hr.nodup
  constructor
  case logLevels =>
    intro loggerName logLevel
    rw [← levelFor_eq_some_iff hnames]
    refine (iff_of_eq (congrArg (· = some logLevel) (htable loggerName))).trans ?_
    split_ifs with hname
    · exact iff_of_false (fun h => nomatch h) fun h => h.1 hname
    · exact (and_iff_right hname).symm
  case globalLogLevel => rfl
  case registered =>
    intro loggerName a hget
    have hmem : (loggerName, a) ∈ loggers :=
      hloggers.mem_iff.mpr (r.loggers.mem_entries_iff.mpr hget)
    refine (logger_eachLogger hnodup hmem r.objects).trans ?_
    rw [levelled_eq, htable, levelOf]
    split_ifs with hname
    · rw [hname, Option.none_or]
      cases levelFor entries [] <;> rfl
    · rfl
  case others =>
    intro a hnot
    refine logger_eachLogger_of_not_mem (fun hmem => ?_) r.objects
    obtain ⟨⟨loggerName, b⟩, hentry, rfl⟩ := List.mem_map.mp hmem
    exact hnot loggerName (r.loggers.mem_entries_iff.mp (hloggers.mem_iff.mp hentry))
  case rest =>
    have hobjects := eachLogger_eq (levelled levels (levelFor entries [])) loggers r.objects
    rw [setLevelsInOrder]
    exact congrArg (fun objects => { r with
      objects
      logLevels := levels
      globalLogLevel := (levelFor entries []).getD r.globalLogLevel }) hobjects

/-- What is loaded is told by the entries. -/
theorem Loaded.unique {entries : List LevelEntry} {r r₁ r₂ : Registry φ ε}
    (h₁ : Loaded entries r r₁) (h₂ : Loaded entries r r₂) : r₁ = r₂ := by
  have hlogger : r₁.objects.logger = r₂.objects.logger := by
    funext a
    by_cases hget : ∃ loggerName, r.get loggerName = some a
    · obtain ⟨loggerName, hget⟩ := hget
      rw [h₁.registered loggerName a hget, h₂.registered loggerName a hget]
    · rw [h₁.others a (not_exists.mp hget), h₂.others a (not_exists.mp hget)]
  have hlogLevels : r₁.logLevels = r₂.logLevels := by
    apply OrdMap.ext_lookup
    intro loggerName
    apply Option.ext
    intro logLevel
    rw [h₁.logLevels, h₂.logLevels]
  have hglobal := h₁.globalLogLevel.trans h₂.globalLogLevel.symm
  rw [h₁.rest, h₂.rest, hlogger, hlogLevels, hglobal]

/-- In a registry after any calls, loading a string that has been printed, with the entries in
any order and the names different, sets what the entries say and changes nothing else, whatever
the orders of the two maps. -/
theorem load_levels_prints [FormatterBase φ] (defaultFormatter : φ)
    (defaultLogger colorSink : Addr) (o : Objects φ ε) (calls : List (RegistryCall φ ε))
    (entries : List LevelEntry) (hne : entries ≠ [])
    (hnames : (entries.map LevelEntry.name).Nodup)
    (hlength : (printLevels entries).length ≤ 512) :
    let r := Runs.run step (new defaultFormatter defaultLogger colorSink o) calls
    let input := printLevels entries
    ∀ keyVals loggers, keyVals.Perm (extractKeyVals input).entries →
      loggers.Perm r.loggers.entries →
        Loaded entries r (r.loadLevelsInOrder keyVals loggers input) ∧
          r.loadLevelsInOrder keyVals loggers input = r.loadLevels input := by
  intro r input keyVals loggers hkeyVals hloggers
  have hr : r.Consistent := (consistent_new defaultFormatter defaultLogger colorSink o).run calls
  have hloaded := Loaded.inOrder hr hne hnames hlength hkeyVals hloggers
  exact ⟨hloaded, hloaded.unique (Loaded.inOrder hr hne hnames hlength (.refl _) (.refl _))⟩

/-- A level for `x`, and one for all others. -/
def entriesX : List LevelEntry :=
  [⟨.absent, ⟨ascii " ", forall_mem_of_all (by decide)⟩, ⟨.err, ascii "Err", by decide⟩,
      ⟨[], forall_mem_of_all (by decide)⟩⟩,
    ⟨.named ⟨ascii "\t", forall_mem_of_all (by decide)⟩
        ⟨ascii "x", by decide, by decide, by decide, forall_mem_of_option_all (by decide),
          forall_mem_of_option_all (by decide)⟩
        ⟨ascii " ", forall_mem_of_all (by decide)⟩,
      ⟨[], forall_mem_of_all (by decide)⟩, ⟨.warn, ascii "WARNing", by decide⟩,
      ⟨ascii "\n", forall_mem_of_all (by decide)⟩⟩]

theorem load_levels_prints_x :
    let r := Runs.run step twoNamedX [.registerLogger 2]
    let r' := r.loadLevelsInOrder (extractKeyVals (ascii " Err,\tx =WARNing\n")).entries.reverse
      r.loggers.entries.reverse (ascii " Err,\tx =WARNing\n")
    Loaded entriesX r r' ∧ r'.globalLogLevel = .err ∧ r'.levelOf 0 = .err ∧
      r'.levelOf 2 = .warn := by
  intro r r'
  obtain ⟨hloaded, -⟩ := load_levels_prints () 0 1
    { logger := fun _ => { name := ascii "x", sinks := [] }, formatter := fun _ => () }
    [.registerLogger 2] entriesX (by decide) (by decide) (by decide) _ _
    (List.reverse_perm _) (List.reverse_perm _)
  exact ⟨hloaded, by decide, by decide, by decide⟩

end Registry

end Structlog
