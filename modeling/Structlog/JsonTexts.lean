import Structlog.JsonDom
import Structlog.JsonHandlers

/-!
# The texts of values

`parse` returns a value exactly if the input is the text of a tree that means this value,
behind nothing but white space or a null byte (`parse_iff`); a byte order mark may come
before it.  If comments are ignored, every text without them is still read, as the same
value (`parse_ignoring_comments`).
-/

namespace Structlog.Json

open Lib Lib.JsonSyntax Lexer

/-- The input is a text of the value. -/
def Means (config : LexerConfig) (input : Bytes) (j : Json) : Prop :=
  ∃ t after, Parser.Spelled t after input ∧ Ending after ∧ treeValue config t = some j

variable {config : LexerConfig}

theorem isSome_bind_pure {α β : Type} (a : Option α) (f : α → β) :
    (do return f (← a)).isSome = a.isSome := by
  cases a <;> rfl

theorem isSome_bind_bind_pure {α β γ : Type} (a : Option α) (b : Option β) (f : α → β → γ) :
    (do return f (← a) (← b)).isSome = (a.isSome && b.isSome) := by
  cases a <;> cases b <;> rfl

mutual

/-- A tree has a value if its numbers are finite. -/
theorem isSome_treeValue :
    (t : Tree) → (treeValue config t).isSome = (treeEvents config t).isSome
  | .null => rfl
  | .boolean b => rfl
  | .string s => rfl
  | .number text => by
      rw [treeValue, treeEvents]
      cases he : numberEvent config text with
      | none => rfl
      | some e =>
          obtain ⟨v, hv⟩ := eventValue_numberEvent he
          simp [hv]
  | .array elements => by
      rw [treeValue, treeEvents, Option.isSome_map, isSome_bind_pure]
      exact isSome_elementValues elements
  | .object members => by
      rw [treeValue, treeEvents, Option.isSome_map, isSome_bind_pure]
      exact isSome_memberValues members

theorem isSome_elementValues : (elements : List Tree) →
    (elementValues config elements).isSome = (elementsEvents config elements).isSome
  | [] => rfl
  | element :: rest => by
      rw [elementValues, elementsEvents, isSome_bind_bind_pure, isSome_bind_bind_pure,
        isSome_treeValue element, isSome_elementValues rest]

theorem isSome_memberValues : (members : List (Bytes × Tree)) →
    (memberValues config members).isSome = (membersEvents config members).isSome
  | [] => rfl
  | (key, value) :: rest => by
      rw [memberValues, membersEvents, isSome_bind_bind_pure, isSome_bind_bind_pure,
        isSome_treeValue value, isSome_memberValues rest]

end

/-- The events of a tree build its value. -/
theorem Dom.run_new (allowExceptions : Bool) {t : Tree} {es : List SaxEvent} {j : Json}
    (hes : treeEvents config t = some es) (hj : treeValue config t = some j) :
    ((sax allowExceptions).run es new).root = j ∧
      ((sax allowExceptions).run es new).errored = false := by
  obtain ⟨element, hrun⟩ := run_tree allowExceptions t hes hj takes_new
  rw [hrun]
  exact ⟨rfl, rfl⟩

/-- Every text of a value is read as this value. -/
theorem parse_of_means {input : Bytes} {j : Json} (h : Means config input j)
    (allowExceptions : Bool) : parse config allowExceptions input = some (.ok j) := by
  obtain ⟨t, after, hspelled, hafter, hj⟩ := h
  obtain ⟨es, hes⟩ : ∃ es, treeEvents config t = some es := by
    rw [← Option.isSome_iff_exists, ← isSome_treeValue, hj]
    rfl
  obtain ⟨size, q, hat, hresult⟩ := Parser.saxParseInternal_of_spelled
    (Dom.sax_lawful allowExceptions) hspelled hafter.delimited hes Dom.new
  obtain ⟨hroot, herrored⟩ := Dom.run_new allowExceptions hes hj
  have hend : (q.getToken config).lastToken = .endOfInput := scan_of_ending hat hafter
  rw [parse, Parser.parse, hresult]
  dsimp only
  rw [Parser.expectEnd_of_end _ hend]
  simp only [Except.map, herrored, hroot]
  rfl

/-- What is read is a text of the value. -/
theorem means_of_parse (hcomments : config.ignoreComments = false) {input : Bytes} {j : Json}
    (h : parse config true input = some (.ok j)) : Means config input j := by
  have hlawful := Dom.sax_lawful true
  rw [parse, Parser.parse] at h
  rcases hresult : Parser.saxParseInternal config (Dom.sax true) (Parser.new config input) Dom.new
    with _ | ex | ⟨result, q, dom⟩
  · rw [hresult] at h
    cases h
  · rw [hresult] at h
    cases h
  · obtain ⟨r, -, halike⟩ :=
      Parser.saxParseInternal_throwing (Dom.sax_follows true true) ⟨rfl, Dom.sane_new⟩ hresult
    obtain ⟨_, _, _, hsame, -⟩ | ⟨_, _, _, _, _, hsame, -⟩ := halike.throwing
    · cases hsame
      obtain ⟨t, after, es, size, hspelled, hes, hat, rfl⟩ :=
        Parser.spelled_of_saxParseInternal hlawful hcomments hresult
      obtain ⟨v, hv⟩ : ∃ v, treeValue config t = some v := by
        rw [← Option.isSome_iff_exists, isSome_treeValue, hes]
        rfl
      obtain ⟨hroot, herrored⟩ := Dom.run_new true hes hv
      rw [hresult] at h
      dsimp only at h
      by_cases hend : (q.getToken config).lastToken = .endOfInput
      · rw [Parser.expectEnd_of_end _ hend] at h
        simp only [Except.map, herrored, hroot, Bool.false_eq_true, if_false] at h
        cases h
        exact ⟨t, after, hspelled, ending_of_scan hat hcomments hend, hv⟩
      · rw [Parser.expectEnd_of_ne _ hend] at h
        cases h
    · cases hsame

/-- The parser reads the texts of values, and nothing else. -/
theorem parse_iff (hcomments : config.ignoreComments = false) (input : Bytes) (j : Json) :
    parse config true input = some (.ok j) ↔ Means config input j :=
  ⟨means_of_parse hcomments, fun h => parse_of_means h true⟩

/-- Of two members with one key the second stays. -/
theorem parse_iff_repeated_key :
    Means ⟨false, 0x2E, fun _ => none⟩ (ascii "\x7b\"a\":1, \"a\":[true]\x7d\n")
      (.object [(ascii "a", .array [.boolean true])]) :=
  (parse_iff rfl _ _).mp rfl

/-! ## Comments -/

mutual

theorem treeValue_ignoreComments (ignoreComments : Bool) :
    (t : Tree) → treeValue { config with ignoreComments } t = treeValue config t
  | .null => rfl
  | .boolean b => rfl
  | .string s => rfl
  | .number text => rfl
  | .array elements => by
      rw [treeValue, treeValue, elementValues_ignoreComments ignoreComments elements]
  | .object members => by
      rw [treeValue, treeValue, memberValues_ignoreComments ignoreComments members]

theorem elementValues_ignoreComments (ignoreComments : Bool) : (elements : List Tree) →
    elementValues { config with ignoreComments } elements = elementValues config elements
  | [] => rfl
  | element :: rest => by
      rw [elementValues, elementValues, treeValue_ignoreComments ignoreComments element,
        elementValues_ignoreComments ignoreComments rest]

theorem memberValues_ignoreComments (ignoreComments : Bool) : (members : List (Bytes × Tree)) →
    memberValues { config with ignoreComments } members = memberValues config members
  | [] => rfl
  | (key, value) :: rest => by
      rw [memberValues, memberValues, treeValue_ignoreComments ignoreComments value,
        memberValues_ignoreComments ignoreComments rest]

end

/-- A text that is read with comments forbidden is read as the same value if they are ignored. -/
theorem parse_ignoring_comments (hcomments : config.ignoreComments = false) {input : Bytes}
    {j : Json} (h : parse config true input = some (.ok j)) :
    parse { config with ignoreComments := true } true input = some (.ok j) := by
  obtain ⟨t, after, hspelled, hafter, hj⟩ := means_of_parse hcomments h
  refine parse_of_means ⟨t, after, hspelled, hafter, ?_⟩ true
  rw [treeValue_ignoreComments]
  exact hj

theorem parse_ignoring_comments_array :
    parse ⟨true, 0x2E, fun _ => none⟩ true (ascii "[1, \"//\"]") =
      some (.ok (.array [.integer 1, .string (ascii "//")])) :=
  @parse_ignoring_comments ⟨false, 0x2E, fun _ => none⟩ rfl _ _ rfl

end Structlog.Json
