import Structlog.JsonDump
import Structlog.JsonTexts

/-!
# Reading what was written

A value that `dump` can write as JSON is `Readable`: its integers fit 64 bits, its strings
are UTF-8, its objects have their keys in order, and `strtod` takes the text of a `double`
for that `double`.  What `dump` writes for such a value is one of its texts (`spells_dump`),
so it is read as the value.
-/

namespace Structlog.Json

open Lib Lib.Utf8 Lib.JsonSyntax Lexer

/-! ## Strings -/

theorem hexValue_hexDigit {k : ℕ} (h : k < 16) : hexValue (hexDigit false k) = some k := by
  have htable : ∀ k < 16, hexValue (hexDigit false k) = some k := by decide
  exact htable k h

theorem codeUnit_control {n : ℕ} (h : n < 256) :
    CodeUnit [0x30, 0x30, hexDigit false (n / 16), hexDigit false (n % 16)] n := by
  refine ⟨_, _, _, _, 0, 0, n / 16, n % 16, rfl, rfl, rfl, hexValue_hexDigit (by omega),
    hexValue_hexDigit (by omega), ?_⟩
  omega

/-- What is written for a byte below `0x80` means the byte. -/
theorem piece_escapeByte {b : UInt8} (h : b ≤ 0x7F) : Piece (escapeByte b) [b] := by
  have hshort {n : ℕ} (hn : b.toNat = n) (letter : UInt8)
      (hletter : shortEscape letter = some (UInt8.ofNat n)) : Piece [0x5C, letter] [b] := by
    rw [← UInt8.ofNat_toNat (x := b), hn]
    exact .short hletter
  unfold escapeByte writeCodepoint
  split_ifs with h₁ h₂ h₃ h₄ h₅ h₆ h₇ h₈
  · exact hshort h₁ 0x62 rfl
  · exact hshort h₂ 0x74 rfl
  · exact hshort h₃ 0x6E rfl
  · exact hshort h₄ 0x66 rfl
  · exact hshort h₅ 0x72 rfl
  · exact hshort h₆ 0x22 rfl
  · exact hshort h₇ 0x5C rfl
  · -- the other control characters
    have hpiece := Piece.unicode (codeUnit_control b.toNat_lt) (by omega)
    rw [encode, if_pos (by omega), UInt8.ofNat_toNat] at hpiece
    exact hpiece
  · refine .plain (.one h) fun c hc => ?_
    obtain rfl := List.mem_singleton.mp hc
    simp only [UInt8.le_iff_toNat_le, UInt8.reduceToNat, ne_eq, ← UInt8.toNat_inj]
    omega

/-- A longer character is written as it is. -/
theorem escape_high {c : Bytes} (h : ∀ b ∈ c, 0x80 ≤ b) : escape c = c := by
  induction c with
  | nil => rfl
  | cons b c ih =>
      obtain ⟨hb, hc⟩ := List.forall_mem_cons.mp h
      rw [escape, List.flatMap_cons, ← escape, escapeByte_high hb, ih hc]
      rfl

theorem piece_escape {c : Bytes} (hc : Character c) : Piece (escape c) c := by
  obtain ⟨a, rfl, ha⟩ | hhigh := hc.ascii_or_high
  · rw [escape, List.flatMap_singleton]
    exact piece_escapeByte ha
  · rw [escape_high hhigh]
    refine .plain hc fun b hb => ?_
    have := hhigh b hb
    simp only [UInt8.le_iff_toNat_le, UInt8.reduceToNat, ne_eq, ← UInt8.toNat_inj] at this ⊢
    omega

/-- A string is read as it was before it was escaped. -/
theorem literal_escape {s : Bytes} (h : Text s) : Literal (escape s) s := by
  induction h with
  | nil => exact .nil
  | cons hc _ ih =>
      rw [escape, List.flatMap_append]
      exact .cons (piece_escape hc) ih

/-! ## Numbers -/

theorem digits_decimal (n : ℕ) : Digits (decimal n) := fun b hb => by
  obtain ⟨hlow, hhigh⟩ := mem_decimal_bounds hb
  exact ⟨UInt8.le_iff_toNat_le.mpr hlow, UInt8.le_iff_toNat_le.mpr hhigh⟩

theorem whole_decimal (n : ℕ) : Whole (decimal n) := by
  have hdigits := digits_decimal n
  rcases Nat.eq_zero_or_pos n with rfl | hpos
  · exact .inl rfl
  · obtain ⟨d, ds, hdecimal, hd⟩ := decimal_of_pos hpos
    rw [hdecimal] at hdigits ⊢
    exact .inr ⟨d, ds, rfl, hdigits d List.mem_cons_self, hd,
      fun b hb => hdigits b (List.mem_cons_of_mem _ hb)⟩

theorem number_decimalInt (n : ℤ) : Number (decimalInt n) := by
  have hmagnitude : Magnitude (decimal n.natAbs) :=
    ⟨_, [], by simp, whole_decimal n.natAbs, [], [], rfl, .inl rfl, .inl rfl⟩
  rw [decimalInt]
  split_ifs
  · exact .inr ⟨_, rfl, hmagnitude⟩
  · exact .inl hmagnitude

theorem not_marked_decimal (n : ℕ) : ¬ Marked (decimal n) := by
  have hdigits := digits_decimal n
  rintro (h | h | h) <;> exact absurd (hdigits _ h) (by decide)

/-- An integer of 64 bits is read as itself. -/
theorem numberEvent_decimalInt (config : LexerConfig) {n : ℤ} (hlow : -9223372036854775808 ≤ n)
    (hhigh : n ≤ 18446744073709551615) :
    (numberEvent config (decimalInt n)).bind eventValue = some (.integer n) := by
  have hunmarked := not_marked_decimal n.natAbs
  rw [decimalInt]
  split_ifs with hneg
  · have htype : numberType (charByte '-' :: decimal n.natAbs) = .valueInteger := by
      rw [numberType, if_neg (by rwa [marked_cons (by decide)])]
      rfl
    have hvalue : -(readDecimal (charByte '-' :: decimal n.natAbs).tail : ℤ) = n := by
      rw [List.tail_cons, readDecimal_decimal]
      omega
    rw [numberEvent, htype, if_neg (by simp), hvalue, if_pos ⟨rfl, hlow⟩]
    rfl
  · have htype : numberType (decimal n.natAbs) = .valueUnsigned := by
      rw [numberType, if_neg hunmarked, if_neg]
      intro hhead
      obtain ⟨rest, hrest⟩ := List.head?_eq_some_iff.mp hhead
      exact absurd (digits_decimal n.natAbs 0x2D (hrest ▸ List.mem_cons_self)) (by decide)
    have hvalue : (n.natAbs : ℤ) = n := by omega
    rw [numberEvent, htype, readDecimal_decimal, if_pos ⟨rfl, by omega⟩]
    exact congrArg (fun n => some (Json.integer n)) hvalue

/-! ## Values -/

mutual

/-- What `dump` writes as JSON, and can be read again. -/
def Readable (config : LexerConfig) : Json → Prop
  | .null => True
  | .boolean _ => True
  | .integer n => -9223372036854775808 ≤ n ∧ n ≤ 18446744073709551615
  | .float x =>
      Number x.text ∧ Marked x.text ∧ config.strtod (x.text.map (localize config)) = some x
  | .string s => Text s
  | .array elements => ReadableElements config elements
  | .object members => SortedKeys members ∧ ReadableMembers config members
  | .binary _ _ => False
  | .discarded => False

def ReadableElements (config : LexerConfig) : List Json → Prop
  | [] => True
  | element :: rest => Readable config element ∧ ReadableElements config rest

def ReadableMembers (config : LexerConfig) : List (Bytes × Json) → Prop
  | [] => True
  | (key, value) :: rest => Text key ∧ Readable config value ∧ ReadableMembers config rest

end

mutual

/-- The tree whose text `dump` writes; a value that is not `Readable` has none. -/
def tree : Json → Tree
  | .null => .null
  | .boolean b => .boolean b
  | .integer n => .number (decimalInt n)
  | .float x => .number x.text
  | .string s => .string s
  | .array elements => .array (elementTrees elements)
  | .object members => .object (memberTrees members)
  | .binary _ _ => .null
  | .discarded => .null

def elementTrees : List Json → List Tree
  | [] => []
  | element :: rest => tree element :: elementTrees rest

def memberTrees : List (Bytes × Json) → List (Bytes × Tree)
  | [] => []
  | (key, value) :: rest => (key, tree value) :: memberTrees rest

end

variable {config : LexerConfig}

theorem numberEvent_float {x : FloatText} (hmarked : Marked x.text)
    (hstrtod : config.strtod (x.text.map (localize config)) = some x) :
    (numberEvent config x.text).bind eventValue = some (.float x) := by
  rw [numberEvent, numberType, if_pos hmarked, if_neg (by simp), if_neg (by simp), hstrtod]
  rfl

mutual

/-- The tree means the value. -/
theorem treeValue_tree : (j : Json) → Readable config j → treeValue config (tree j) = some j
  | .null, _ => rfl
  | .boolean b, _ => rfl
  | .integer n, h => numberEvent_decimalInt config h.1 h.2
  | .float x, h => numberEvent_float h.2.1 h.2.2
  | .string s, _ => rfl
  | .array elements, h => by
      rw [tree, treeValue, elementValues_trees elements h]
      rfl
  | .object members, h => by
      rw [tree, treeValue, memberValues_trees members h.2, Option.map_some,
        OrdMap.insertAll_entries ⟨members, h.1⟩]
  | .binary _ _, h => h.elim
  | .discarded, h => h.elim

theorem elementValues_trees : (elements : List Json) → ReadableElements config elements →
    elementValues config (elementTrees elements) = some elements
  | [], _ => rfl
  | element :: rest, h => by
      rw [elementTrees, elementValues, treeValue_tree element h.1, elementValues_trees rest h.2]
      rfl

theorem memberValues_trees : (members : List (Bytes × Json)) → ReadableMembers config members →
    memberValues config (memberTrees members) = some members
  | [], _ => rfl
  | (key, value) :: rest, h => by
      rw [memberTrees, memberValues, treeValue_tree value h.2.1, memberValues_trees rest h.2.2]
      rfl

end

theorem spells_one {token : Token} {spelled : Bytes} (h : Spelling token spelled) :
    Spells [token] spelled := by
  simpa using Spells.cons (show Spaces [] by simp [Spaces]) h Spells.nil

theorem spells_cons {token : Token} {spelled rest : Bytes} {tokens : List Token}
    (h : Spelling token spelled) (hrest : Spells tokens rest) :
    Spells (token :: tokens) (spelled ++ rest) :=
  .cons (show Spaces [] by simp [Spaces]) h hrest

theorem quoted_of_text {s : Bytes} (h : Text s) :
    ∃ spelled, quoted s = .ok spelled ∧ Spelling (.string s) spelled := by
  refine ⟨_, ?_, .string (literal_escape h)⟩
  rw [quoted, dumpEscaped_of_text h]
  rfl

mutual

/-- What `dump` writes is a text of the tree. -/
theorem spells_dump : (j : Json) → Readable config j →
    ∃ line, dump j = .ok line ∧ Spells (tree j).tokens line
  | .null, _ => ⟨_, rfl, spells_one .null⟩
  | .boolean true, _ => ⟨_, rfl, spells_one .yes⟩
  | .boolean false, _ => ⟨_, rfl, spells_one .no⟩
  | .integer n, _ => ⟨_, rfl, spells_one (.number (number_decimalInt n))⟩
  | .float x, h => ⟨_, rfl, spells_one (.number h.1)⟩
  | .string s, h => by
      obtain ⟨spelled, hquoted, hspelling⟩ := quoted_of_text h
      exact ⟨spelled, hquoted, spells_one hspelling⟩
  | .array elements, h => by
      obtain ⟨text, hdump, hspells⟩ := spells_dumpElements elements h
      refine ⟨ascii "[" ++ text ++ ascii "]", by rw [dump, hdump]; rfl, ?_⟩
      rw [List.append_assoc]
      exact spells_cons .beginArray hspells
  | .object members, h => by
      obtain ⟨text, hdump, hspells⟩ := spells_dumpMembers members h.2
      refine ⟨ascii "\x7b" ++ text ++ ascii "\x7d", by rw [dump, hdump]; rfl, ?_⟩
      rw [List.append_assoc]
      exact spells_cons .beginObject hspells
  | .binary _ _, h => h.elim
  | .discarded, h => h.elim

theorem spells_dumpElements : (elements : List Json) → ReadableElements config elements →
    ∃ text, dumpElements elements = .ok text ∧
      Spells (arrayTokens (elementTrees elements)) (text ++ ascii "]")
  | [], _ => ⟨[], rfl, spells_one .endArray⟩
  | [element], h => by
      obtain ⟨text, hdump, hspells⟩ := spells_dump element h.1
      exact ⟨text, hdump, hspells.append (spells_one .endArray)⟩
  | element :: next :: rest, h => by
      obtain ⟨first, hfirst, hspells₁⟩ := spells_dump element h.1
      obtain ⟨more, hmore, hspells₂⟩ := spells_dumpElements (next :: rest) h.2
      refine ⟨first ++ ascii "," ++ more, ?_, ?_⟩
      · rw [dumpElements, hfirst, hmore]
        · rfl
        · simp
      · rw [List.append_assoc, List.append_assoc]
        exact hspells₁.append (spells_cons .valueSeparator hspells₂)

theorem spells_dumpMembers : (members : List (Bytes × Json)) → ReadableMembers config members →
    ∃ text, dumpMembers members = .ok text ∧
      Spells (objectTokens (memberTrees members)) (text ++ ascii "\x7d")
  | [], _ => ⟨[], rfl, spells_one .endObject⟩
  | [(key, value)], h => by
      obtain ⟨name, hname, hspelling⟩ := quoted_of_text h.1
      obtain ⟨text, hdump, hspells⟩ := spells_dump value h.2.1
      refine ⟨name ++ ascii ":" ++ text, by rw [dumpMembers, hname, hdump]; rfl, ?_⟩
      rw [List.append_assoc, List.append_assoc]
      exact spells_cons hspelling
        (spells_cons .nameSeparator (hspells.append (spells_one .endObject)))
  | (key, value) :: next :: rest, h => by
      obtain ⟨name, hname, hspelling⟩ := quoted_of_text h.1
      obtain ⟨text, hdump, hspells₁⟩ := spells_dump value h.2.1
      obtain ⟨more, hmore, hspells₂⟩ := spells_dumpMembers (next :: rest) h.2.2
      refine ⟨name ++ ascii ":" ++ text ++ ascii "," ++ more, ?_, ?_⟩
      · rw [dumpMembers, hname, hdump, hmore]
        · rfl
        · simp
      · simp only [List.append_assoc]
        exact spells_cons hspelling (spells_cons .nameSeparator
          (hspells₁.append (spells_cons .valueSeparator hspells₂)))

end

/-- What is written means the value. -/
theorem means_dump {j : Json} (h : Readable config j) :
    ∃ line, dump j = .ok line ∧ Means config line j := by
  obtain ⟨line, hdump, hspells⟩ := spells_dump j h
  exact ⟨line, hdump, tree j, [], ⟨[], line, by simp, .inl rfl, hspells⟩,
    ⟨[], [], rfl, by simp [Spaces], .inl rfl⟩, treeValue_tree j h⟩

/-- A value that is written is read as itself. -/
theorem parse_dump {j : Json} (h : Readable config j) (allowExceptions : Bool) :
    ∃ line, dump j = .ok line ∧ parse config allowExceptions line = some (.ok j) := by
  obtain ⟨line, hdump, hmeans⟩ := means_dump h
  exact ⟨line, hdump, parse_of_means hmeans allowExceptions⟩

theorem parse_dump_control_characters :
    ∃ line, dump (.object [(ascii "n", .integer (-5)), (ascii "s", .string [0x22, 0x0A, 0x1F])]) =
      .ok line ∧ parse ⟨false, 0x2E, fun _ => none⟩ true line = some (.ok
        (.object [(ascii "n", .integer (-5)), (ascii "s", .string [0x22, 0x0A, 0x1F])])) :=
  @parse_dump ⟨false, 0x2E, fun _ => none⟩
    (.object [(ascii "n", .integer (-5)), (ascii "s", .string [0x22, 0x0A, 0x1F])])
    ⟨by unfold SortedKeys; decide, by decide, ⟨by decide, by decide⟩, by decide,
      show Text _ by decide, trivial⟩ true

/-! ## What is read -/

theorem readableMembers_iff {members : List (Bytes × Json)} :
    ReadableMembers config members ↔ ∀ entry ∈ members, Text entry.1 ∧ Readable config entry.2 := by
  induction members with
  | nil => simp [ReadableMembers]
  | cons entry rest ih =>
      obtain ⟨key, value⟩ := entry
      simp [ReadableMembers, ih, and_assoc]

/-- An object of members written one after the other. -/
theorem readable_object {entries : List (Bytes × Json)} (h : ReadableMembers config entries) :
    Readable config (.object (OrdMap.empty.insertAll entries).entries) := by
  refine ⟨OrdMap.sorted _, readableMembers_iff.mpr fun entry hentry => ?_⟩
  obtain ⟨key, value⟩ := entry
  rw [OrdMap.mem_entries_iff, OrdMap.lookup_insertAll, OrdMap.lookup_empty,
    Option.or_none] at hentry
  exact readableMembers_iff.mp h _ (OrdMap.mem_of_lastValue hentry)

/-- `dump` prints a `double` as a number that `strtod` takes for this `double`. -/
def PrintsFloats (config : LexerConfig) : Prop :=
  ∀ text x, config.strtod text = some x →
    Number x.text ∧ Marked x.text ∧ config.strtod (x.text.map (localize config)) = some x

theorem readable_number (hfloats : PrintsFloats config) {text : Bytes} {j : Json}
    (h : (numberEvent config text).bind eventValue = some j) : Readable config j := by
  unfold numberEvent at h
  split_ifs at h with hunsigned hinteger
  · obtain rfl := Option.some.inj h
    exact ⟨by omega, by omega⟩
  · obtain rfl := Option.some.inj h
    exact ⟨hinteger.2, by omega⟩
  · cases hstrtod : config.strtod (text.map (localize config)) with
    | none =>
        rw [hstrtod] at h
        cases h
    | some x =>
        rw [hstrtod] at h
        obtain rfl := Option.some.inj h
        exact hfloats _ _ hstrtod

theorem spells_tail {token : Token} {tokens : List Token} {s : Bytes}
    (h : Spells (token :: tokens) s) :
    (∃ spelled, Spelling token spelled) ∧ ∃ rest, Spells tokens rest := by
  cases h with
  | cons _ hspelling hrest => exact ⟨⟨_, hspelling⟩, _, hrest⟩

theorem text_of_spelling {s spelled : Bytes} (h : Spelling (.string s) spelled) : Text s := by
  cases h with
  | string hliteral => exact hliteral.text

mutual

/-- What a text means can be written and read again. -/
theorem readable_treeValue (hfloats : PrintsFloats config) : (t : Tree) → {s : Bytes} →
    {j : Json} → Spells t.tokens s → treeValue config t = some j → Readable config j
  | .null, s, j, _, hj => by
      obtain rfl := Option.some.inj hj
      trivial
  | .boolean b, s, j, _, hj => by
      obtain rfl := Option.some.inj hj
      trivial
  | .number text, s, j, _, hj => readable_number hfloats hj
  | .string text, s, j, hspells, hj => by
      obtain rfl := Option.some.inj hj
      obtain ⟨⟨spelled, hspelling⟩, -⟩ := spells_tail hspells
      exact text_of_spelling hspelling
  | .array [], s, j, _, hj => by
      obtain rfl := Option.some.inj hj
      trivial
  | .array (element :: rest), s, j, hspells, hj => by
      obtain ⟨-, rest', hspells⟩ := spells_tail hspells
      obtain ⟨s₁, s₂, rfl, h₁, h₂⟩ := Parser.spells_append_iff.mp hspells
      obtain ⟨v, hv, more, hmore, rfl⟩ : ∃ v, treeValue config element = some v ∧
          ∃ more, elementValues config rest = some more ∧ .array (v :: more) = j := by
        simpa [treeValue, elementValues, Option.bind_eq_some_iff] using hj
      exact ⟨readable_treeValue hfloats element h₁ hv, readable_elementValues hfloats rest h₂ hmore⟩
  | .object [], s, j, _, hj => by
      obtain rfl := Option.some.inj hj
      exact ⟨OrdMap.empty.sorted, trivial⟩
  | .object ((key, value) :: rest), s, j, hspells, hj => by
      obtain ⟨-, _, hspells⟩ := spells_tail hspells
      obtain ⟨⟨_, hkey⟩, _, hspells⟩ := spells_tail hspells
      obtain ⟨-, _, hspells⟩ := spells_tail hspells
      obtain ⟨s₁, s₂, rfl, h₁, h₂⟩ := Parser.spells_append_iff.mp hspells
      obtain ⟨v, hv, more, hmore, rfl⟩ : ∃ v, treeValue config value = some v ∧
          ∃ more, memberValues config rest = some more ∧
            .object (OrdMap.empty.insertAll ((key, v) :: more)).entries = j := by
        simpa [treeValue, memberValues, Option.bind_eq_some_iff] using hj
      exact readable_object ⟨text_of_spelling hkey, readable_treeValue hfloats value h₁ hv,
        readable_memberValues hfloats rest h₂ hmore⟩

theorem readable_elementValues (hfloats : PrintsFloats config) : (elements : List Tree) →
    {s : Bytes} → {values : List Json} → Spells (moreElements elements) s →
    elementValues config elements = some values → ReadableElements config values
  | [], s, values, _, hvalues => by
      obtain rfl := Option.some.inj hvalues
      trivial
  | element :: rest, s, values, hspells, hvalues => by
      obtain ⟨-, rest', hspells⟩ := spells_tail hspells
      obtain ⟨s₁, s₂, rfl, h₁, h₂⟩ := Parser.spells_append_iff.mp hspells
      obtain ⟨v, hv, more, hmore, rfl⟩ : ∃ v, treeValue config element = some v ∧
          ∃ more, elementValues config rest = some more ∧ v :: more = values := by
        simpa [elementValues, Option.bind_eq_some_iff] using hvalues
      exact ⟨readable_treeValue hfloats element h₁ hv, readable_elementValues hfloats rest h₂ hmore⟩

theorem readable_memberValues (hfloats : PrintsFloats config) : (members : List (Bytes × Tree)) →
    {s : Bytes} → {entries : List (Bytes × Json)} → Spells (moreMembers members) s →
    memberValues config members = some entries → ReadableMembers config entries
  | [], s, entries, _, hentries => by
      obtain rfl := Option.some.inj hentries
      trivial
  | (key, value) :: rest, s, entries, hspells, hentries => by
      obtain ⟨-, _, hspells⟩ := spells_tail hspells
      obtain ⟨⟨_, hkey⟩, _, hspells⟩ := spells_tail hspells
      obtain ⟨-, _, hspells⟩ := spells_tail hspells
      obtain ⟨s₁, s₂, rfl, h₁, h₂⟩ := Parser.spells_append_iff.mp hspells
      obtain ⟨v, hv, more, hmore, rfl⟩ : ∃ v, treeValue config value = some v ∧
          ∃ more, memberValues config rest = some more ∧ (key, v) :: more = entries := by
        simpa [memberValues, Option.bind_eq_some_iff] using hentries
      exact ⟨text_of_spelling hkey, readable_treeValue hfloats value h₁ hv,
        readable_memberValues hfloats rest h₂ hmore⟩

end

/-- A value that was read is written, and read again as itself. -/
theorem parse_dump_parse (hcomments : config.ignoreComments = false) (hfloats : PrintsFloats config)
    {input : Bytes} {j : Json} (h : parse config true input = some (.ok j)) :
    ∃ line, dump j = .ok line ∧ parse config true line = some (.ok j) := by
  obtain ⟨t, after, ⟨bom, s, -, -, hspells⟩, -, hj⟩ := means_of_parse hcomments h
  obtain ⟨line, hdump, hmeans⟩ := means_dump (readable_treeValue hfloats t hspells hj)
  exact ⟨line, hdump, parse_of_means hmeans true⟩

/-- Three halves, and no other `double`. -/
def threeHalves : FloatText := ⟨ascii "1.5", forall_mem_of_all (by decide)⟩

theorem printsFloats_threeHalves :
    PrintsFloats ⟨false, 0x2E, fun text =>
      if text = ascii "1.5" ∨ text = ascii "15e-1" then some threeHalves else none⟩ := by
  intro text x h
  obtain ⟨-, rfl⟩ : _ ∧ threeHalves = x := by simpa using h
  exact ⟨(NumberStage.accepts_iff .init _).mp ⟨_, rfl, rfl⟩, by decide, rfl⟩

theorem parse_dump_parse_float :
    ∃ line, dump (.array [.float threeHalves]) = .ok line ∧
      parse ⟨false, 0x2E, fun text =>
        if text = ascii "1.5" ∨ text = ascii "15e-1" then some threeHalves else none⟩ true line =
        some (.ok (.array [.float threeHalves])) :=
  @parse_dump_parse _ rfl printsFloats_threeHalves (ascii "[15e-1]") _ rfl

end Structlog.Json
