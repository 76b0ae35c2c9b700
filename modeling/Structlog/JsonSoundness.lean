import Structlog.JsonGrammar

/-!
# What the parser accepts

The converse of `reads_tree`: where the loop ends with `true`, it has read the text of a
tree (`spelled_of_saxParseInternal`).  The induction is on the turns.  An array or an
object is taken up at a value, behind an element or behind a member, and so there are
three statements (`Sound`), each about fewer turns than the one before it.

Comments are not in the grammar; what is here is about a lexer that does not ignore them.
-/

namespace Structlog.Json

open Lib Lib.Utf8 Lib.JsonSyntax Lexer

namespace Parser

variable {size : ℕ} {config : LexerConfig} {σ : Type} {sax : Sax σ}

/-! ## Soundness -/

/-- From a turn on, the loop ends with `true`. -/
def Succeeds (config : LexerConfig) (sax : Sax σ) (n : ℕ) (t : Except JsonException (Turn σ))
    (q : Parser) (y : σ) : Prop :=
  resume config sax n t = some (.ok (true, q, y))

theorem not_succeeds_reject (hsax : sax.Lawful) {n : ℕ} {expected : TokenType} {context : Bytes}
    {p q : Parser} {x y : σ} :
    ¬ Succeeds config sax n (reject sax expected context p x) q y := by
  have hrefuses := hsax.refuses p.lexer.position.charsReadTotal p.lexer.getTokenString
    (.createParseError 101 p.lexer.position (p.exceptionMessage expected context)) x
  unfold Succeeds reject syntaxError
  rcases hresult : sax.parseError p.lexer.position.charsReadTotal p.lexer.getTokenString
    (.createParseError 101 p.lexer.position (p.exceptionMessage expected context)) x with
    ex | ⟨_ | _, x'⟩
  · simp [bind, Except.bind, resume]
  · simp [bind, Except.bind, resume, pure, Except.pure]
  · exact absurd hresult (hrefuses x')

/-- The token that the loop has is one of the grammar. -/
theorem holds_of_succeeds (hsax : sax.Lawful) (hcomments : config.ignoreComments = false)
    {p : Parser} {text : Bytes} (hat : At size p.lexer text) {n : ℕ} {x : σ} {states : List Bool}
    {q : Parser} {y : σ}
    (h : Succeeds config sax n (parseValue config sax (p.getToken config) x states) q y) :
    ∃ token s rest, text = s ++ rest ∧ (∀ tokens t, Spells tokens t →
      Spells (token :: tokens) (s ++ t)) ∧ Holds size config token rest (p.getToken config) := by
  refine holds_of_getToken hat hcomments (fun herror => ?_) fun hend => ?_
  · simp only [parseValue, herror] at h
    exact not_succeeds_reject hsax h
  · simp only [parseValue, hend] at h
    exact not_succeeds_reject hsax h

/-- The token of a type that has only one. -/
def punctuation : TokenType → Option Token
  | .beginArray => some .beginArray
  | .endArray => some .endArray
  | .beginObject => some .beginObject
  | .endObject => some .endObject
  | .nameSeparator => some .nameSeparator
  | .valueSeparator => some .valueSeparator
  | _ => none

theorem eq_of_kind {token token' : Token} {t : TokenType} (h : Kind token t)
    (ht : punctuation t = some token') : token = token' := by
  cases token with
  | boolean b => cases b <;> (simp only [Kind] at h; subst h; cases ht)
  | number text => rcases h with rfl | rfl | rfl <;> cases ht
  | _ => simp only [Kind] at h; subst h; cases ht <;> rfl

/-- A token of punctuation that was read. -/
theorem holds_punctuation {p : Parser} {text : Bytes} (hat : At size p.lexer text)
    (hcomments : config.ignoreComments = false) {token : Token} {t : TokenType}
    (ht : punctuation t = some token) (htoken : (p.getToken config).lastToken = t) :
    ∃ s rest, text = s ++ rest ∧ (∀ tokens u, Spells tokens u →
      Spells (token :: tokens) (s ++ u)) ∧ At size (p.getToken config).lexer rest := by
  have herror : t ≠ .parseError ∧ t ≠ .endOfInput := by
    constructor <;> rintro rfl <;> cases ht
  obtain ⟨token', s, rest, hsplit, hspells, hholds⟩ :=
    holds_of_getToken hat hcomments (htoken ▸ herror.1) (htoken ▸ herror.2)
  have hkind := hholds.yields.kind
  simp only [htoken] at hkind
  obtain rfl := eq_of_kind hkind ht
  exact ⟨s, rest, hsplit, hspells, hholds.left⟩

/-- A key that was read. -/
theorem key_of_succeeds (hsax : sax.Lawful) (hcomments : config.ignoreComments = false)
    {p : Parser} {text : Bytes} (hat : At size p.lexer text) {n : ℕ} {x : σ} {states : List Bool}
    {q : Parser} {y : σ}
    (h : Succeeds config sax n (parseKey config sax (p.getToken config) x states) q y) :
    ∃ (key s rest : Bytes) (p' : Parser), text = s ++ rest ∧ (∀ tokens t, Spells tokens t →
      Spells (.string key :: .nameSeparator :: tokens) (s ++ t)) ∧ At size p'.lexer rest ∧
      saxParseLoop config sax n (p'.getToken config) (sax.event (.key key) x).2 states false =
        some (.ok (true, q, y)) := by
  rw [parseKey] at h
  by_cases hstring : (p.getToken config).lastToken = .valueString
  · rw [if_neg (not_not.mpr hstring), emit_lawful hsax] at h
    by_cases hname : ((p.getToken config).getToken config).lastToken = .nameSeparator
    · simp only [hname, ne_eq, not_true_eq_false, if_false] at h
      obtain ⟨token, s₁, rest₁, rfl, hspells₁, hkey⟩ :=
        holds_of_getToken hat hcomments (by rw [hstring]; decide) (by rw [hstring]; decide)
      obtain ⟨s₂, rest₂, rfl, hspells₂, hleft⟩ :=
        holds_punctuation hkey.left hcomments rfl hname
      have hkind := hkey.yields.kind
      have hevent := hkey.yields.event
      simp only [hstring] at hkind
      simp only [valueEvent, hstring] at hevent
      obtain ⟨key, rfl, hbuffer⟩ : ∃ key, token = .string key ∧
          (p.getToken config).lexer.tokenBuffer = key := by
        cases token with
        | string key => exact ⟨key, rfl, by simpa [tokenEvent] using hevent⟩
        | boolean b => cases b <;> cases hkind
        | number text => rcases hkind with hkind | hkind | hkind <;> cases hkind
        | _ => cases hkind
      rw [hbuffer] at h
      refine ⟨key, s₁ ++ s₂, rest₂, _, by simp, fun tokens t ht => ?_, hleft, h⟩
      rw [List.append_assoc]
      exact hspells₁ _ _ (hspells₂ _ _ ht)
    · simp only [ne_eq, hname, not_false_eq_true, if_true] at h
      exact absurd h (not_succeeds_reject hsax)
  · rw [if_pos hstring] at h
    exact absurd h (not_succeeds_reject hsax)

/-- A value that was read in fewer than `n` turns, with what the loop does behind it. -/
def ValueRead (size : ℕ) (config : LexerConfig) (sax : Sax σ) (n : ℕ) (text : Bytes) (x : σ)
    (states : List Bool) (q : Parser) (y : σ) : Prop :=
  ∃ (t : Tree) (s after : Bytes) (es : List SaxEvent) (p' : Parser) (m : ℕ), text = s ++ after ∧
    Spells t.tokens s ∧ treeEvents config t = some es ∧ At size p'.lexer after ∧ m < n ∧
    Succeeds config sax m (evaluateState config sax p' (sax.run es x) states) q y

/-- The rest of an array, read in fewer than `n` turns. -/
def ElementsRead (size : ℕ) (config : LexerConfig) (sax : Sax σ) (n : ℕ) (text : Bytes) (x : σ)
    (states : List Bool) (q : Parser) (y : σ) : Prop :=
  ∃ (elements : List Tree) (s after : Bytes) (es : List SaxEvent) (p' : Parser) (m : ℕ),
    text = s ++ after ∧ Spells (moreElements elements) s ∧
    elementsEvents config elements = some es ∧ At size p'.lexer after ∧ m < n ∧
    Succeeds config sax m
      (evaluateState config sax p' (sax.run (es ++ [.endArray]) x) states) q y

/-- The rest of an object, read in fewer than `n` turns. -/
def MembersRead (size : ℕ) (config : LexerConfig) (sax : Sax σ) (n : ℕ) (text : Bytes) (x : σ)
    (states : List Bool) (q : Parser) (y : σ) : Prop :=
  ∃ (members : List (Bytes × Tree)) (s after : Bytes) (es : List SaxEvent) (p' : Parser) (m : ℕ),
    text = s ++ after ∧ Spells (moreMembers members) s ∧
    membersEvents config members = some es ∧ At size p'.lexer after ∧ m < n ∧
    Succeeds config sax m
      (evaluateState config sax p' (sax.run (es ++ [.endObject]) x) states) q y

/-- What is known of the loop with `n` turns, at a value. -/
def SoundValue (size : ℕ) (config : LexerConfig) (sax : Sax σ) (n : ℕ) : Prop :=
  ∀ {p : Parser} {text : Bytes} {x : σ} {states : List Bool} {q : Parser} {y : σ},
    At size p.lexer text →
    saxParseLoop config sax n (p.getToken config) x states false = some (.ok (true, q, y)) →
    ValueRead size config sax n text x states q y

/-- What is known of the loop with `n` turns. -/
structure Sound (size : ℕ) (config : LexerConfig) (sax : Sax σ) (n : ℕ) : Prop where
  value : SoundValue size config sax n
  elements : ∀ {p : Parser} {text : Bytes} {x : σ} {states : List Bool} {q : Parser} {y : σ},
    At size p.lexer text →
    Succeeds config sax n (evaluateState config sax p x (true :: states)) q y →
    ElementsRead size config sax n text x states q y
  members : ∀ {p : Parser} {text : Bytes} {x : σ} {states : List Bool} {q : Parser} {y : σ},
    At size p.lexer text →
    Succeeds config sax n (evaluateState config sax p x (false :: states)) q y →
    MembersRead size config sax n text x states q y

/-- A value without parts. -/
theorem value_scalar (hsax : sax.Lawful) {p : Parser} {token : Token} {e : SaxEvent}
    (he : tokenEvent config token = some e) {t : Tree} (htokens : t.tokens = [token])
    (hevents : treeEvents config t = some [e]) {s rest : Bytes}
    (hspells : ∀ tokens u, Spells tokens u → Spells (token :: tokens) (s ++ u))
    (hholds : Holds size config token rest (p.getToken config)) {n : ℕ} {x : σ}
    {states : List Bool} {q : Parser} {y : σ}
    (h : Succeeds config sax n (parseValue config sax (p.getToken config) x states) q y) :
    ValueRead size config sax (n + 1) (s ++ rest) x states q y := by
  rw [parseValue_of_event hsax (hholds.yields.event.trans he)] at h
  refine ⟨t, s, rest, [e], _, n, rfl, ?_, hevents, hholds.left, Nat.lt_succ_self n, h⟩
  rw [htokens, ← List.append_nil s]
  exact hspells [] [] .nil

theorem value_array (hsax : sax.Lawful) (hcomments : config.ignoreComments = false) {n : ℕ}
    (ih : ∀ m ≤ n, Sound size config sax m) {p : Parser} {s rest : Bytes}
    (hspells : ∀ tokens u, Spells tokens u → Spells (.beginArray :: tokens) (s ++ u))
    (hholds : Holds size config .beginArray rest (p.getToken config)) {x : σ}
    {states : List Bool} {q : Parser} {y : σ}
    (h : Succeeds config sax n (parseValue config sax (p.getToken config) x states) q y) :
    ValueRead size config sax (n + 1) (s ++ rest) x states q y := by
  have hbegin : (p.getToken config).lastToken = .beginArray := hholds.yields.kind
  simp only [parseValue, hbegin, emit_lawful hsax] at h
  -- either the closing bracket follows, or a first element and more of them
  split_ifs at h with hend
  · obtain ⟨s₂, rest₂, rfl, hspells₂, hleft⟩ := holds_punctuation hholds.left hcomments rfl hend
    refine ⟨.array [], s ++ s₂, rest₂, _, _, n, by simp, ?_, rfl, hleft, Nat.lt_succ_self n, h⟩
    have := hspells _ _ (hspells₂ [] [] .nil)
    rwa [List.append_nil] at this
  · obtain ⟨element, s₂, rest₂, es, p₂, m₂, rfl, hspells₂, hes, hleft₂, hm₂, h⟩ :=
      (ih n (Nat.le_refl n)).value hholds.left h
    obtain ⟨elements, s₃, rest₃, fs, p₃, m₃, rfl, hspells₃, hfs, hleft₃, hm₃, h⟩ :=
      (ih m₂ (Nat.le_of_lt hm₂)).elements hleft₂ h
    refine ⟨.array (element :: elements), s ++ (s₂ ++ s₃), rest₃,
      .startArray :: (es ++ fs ++ [.endArray]), p₃, m₃, by simp,
      hspells _ _ (hspells₂.append hspells₃), ?_, hleft₃, by omega, ?_⟩
    · simp [treeEvents, elementsEvents, hes, hfs]
    · simpa using h

theorem value_object (hsax : sax.Lawful) (hcomments : config.ignoreComments = false) {n : ℕ}
    (ih : ∀ m ≤ n, Sound size config sax m) {p : Parser} {s rest : Bytes}
    (hspells : ∀ tokens u, Spells tokens u → Spells (.beginObject :: tokens) (s ++ u))
    (hholds : Holds size config .beginObject rest (p.getToken config)) {x : σ}
    {states : List Bool} {q : Parser} {y : σ}
    (h : Succeeds config sax n (parseValue config sax (p.getToken config) x states) q y) :
    ValueRead size config sax (n + 1) (s ++ rest) x states q y := by
  have hbegin : (p.getToken config).lastToken = .beginObject := hholds.yields.kind
  simp only [parseValue, hbegin, emit_lawful hsax] at h
  -- likewise, with a key before each value
  split_ifs at h with hend
  · obtain ⟨s₂, rest₂, rfl, hspells₂, hleft⟩ := holds_punctuation hholds.left hcomments rfl hend
    refine ⟨.object [], s ++ s₂, rest₂, _, _, n, by simp, ?_, rfl, hleft, Nat.lt_succ_self n, h⟩
    have := hspells _ _ (hspells₂ [] [] .nil)
    rwa [List.append_nil] at this
  · obtain ⟨key, s₁, rest₁, p₁, rfl, hspells₁, hleft₁, h⟩ :=
      key_of_succeeds hsax hcomments hholds.left h
    obtain ⟨value, s₂, rest₂, es, p₂, m₂, rfl, hspells₂, hes, hleft₂, hm₂, h⟩ :=
      (ih n (Nat.le_refl n)).value hleft₁ h
    obtain ⟨members, s₃, rest₃, fs, p₃, m₃, rfl, hspells₃, hfs, hleft₃, hm₃, h⟩ :=
      (ih m₂ (Nat.le_of_lt hm₂)).members hleft₂ h
    refine ⟨.object ((key, value) :: members), s ++ (s₁ ++ (s₂ ++ s₃)), rest₃,
      .startObject :: .key key :: (es ++ fs ++ [.endObject]), p₃, m₃, by simp,
      hspells _ _ (hspells₁ _ _ (hspells₂.append hspells₃)), ?_, hleft₃, by omega, ?_⟩
    · simp [treeEvents, membersEvents, hes, hfs]
    · simpa using h

/-- A number that is not finite is refused. -/
theorem not_succeeds_overflow (hsax : sax.Lawful) {p q : Parser} {text : Bytes}
    (hkind : Kind (.number text) p.lastToken) (hevent : valueEvent (p.lastToken, p.lexer) = none)
    {n : ℕ} {x y : σ} {states : List Bool} :
    ¬ Succeeds config sax n (parseValue config sax p x states) q y := by
  rcases hkind with htoken | htoken | htoken
  · simp [valueEvent, htoken] at hevent
  · simp [valueEvent, htoken] at hevent
  · simp only [valueEvent, htoken, Option.map_eq_none_iff] at hevent
    have hrefuses := hsax.refuses p.lexer.position.charsReadTotal p.lexer.getTokenString
      (.createOutOfRange 406
        (ascii "number overflow parsing '" ++ p.lexer.getTokenString ++ ascii "'")) x
    simp only [Succeeds, parseValue, htoken, hevent]
    rcases hresult : sax.parseError p.lexer.position.charsReadTotal p.lexer.getTokenString
      (.createOutOfRange 406
        (ascii "number overflow parsing '" ++ p.lexer.getTokenString ++ ascii "'")) x with
      ex | ⟨_ | _, x'⟩
    · simp [bind, Except.bind, resume]
    · simp [bind, Except.bind, resume, pure, Except.pure]
    · exact absurd hresult (hrefuses x')

theorem sound_value (hsax : sax.Lawful) (hcomments : config.ignoreComments = false) {n : ℕ}
    (ih : ∀ m ≤ n, Sound size config sax m) {p : Parser} {text : Bytes}
    (hat : At size p.lexer text) {x : σ} {states : List Bool} {q : Parser} {y : σ}
    (h : Succeeds config sax n (parseValue config sax (p.getToken config) x states) q y) :
    ValueRead size config sax (n + 1) text x states q y := by
  obtain ⟨token, s, rest, rfl, hspells, hholds⟩ := holds_of_succeeds hsax hcomments hat h
  -- the four tokens that begin no value
  have hclosing {t : TokenType} (ht : (p.getToken config).lastToken = t)
      (hreject : parseValue config sax ⟨(p.getToken config).lexer, t⟩ x states =
        reject sax .literalOrValue (ascii "value") ⟨(p.getToken config).lexer, t⟩ x) :
      ValueRead size config sax (n + 1) (s ++ rest) x states q y := by
    subst ht
    rw [show (⟨(p.getToken config).lexer, (p.getToken config).lastToken⟩ : Parser) =
      p.getToken config from rfl] at hreject
    rw [hreject] at h
    exact absurd h (not_succeeds_reject hsax)
  cases token with
  | null => exact @value_scalar _ _ _ _ hsax _ _ _ rfl .null rfl rfl _ _ hspells hholds _ _ _ _ _ h
  | boolean b =>
      exact @value_scalar _ _ _ _ hsax _ _ _ rfl (.boolean b) rfl rfl _ _ hspells hholds _ _ _ _ _ h
  | string key =>
      exact @value_scalar _ _ _ _ hsax _ _ _ rfl (.string key) rfl rfl _ _ hspells hholds
        _ _ _ _ _ h
  | number text =>
      cases he : numberEvent config text with
      | none =>
          exact absurd h
            (not_succeeds_overflow hsax hholds.yields.kind (hholds.yields.event.trans he))
      | some e =>
          exact @value_scalar size config _ _ hsax p (.number text) e he (.number text) rfl
            (by simp [treeEvents, he]) _ _ hspells hholds _ _ _ _ _ h
  | beginArray => exact value_array hsax hcomments ih hspells hholds h
  | beginObject => exact value_object hsax hcomments ih hspells hholds h
  | endArray => exact hclosing hholds.yields.kind rfl
  | endObject => exact hclosing hholds.yields.kind rfl
  | nameSeparator => exact hclosing hholds.yields.kind rfl
  | valueSeparator => exact hclosing hholds.yields.kind rfl

theorem sound_elements (hsax : sax.Lawful) (hcomments : config.ignoreComments = false) {n : ℕ}
    (hvalue : SoundValue size config sax n) (ih : ∀ m < n, Sound size config sax m) {p : Parser}
    {text : Bytes} (hat : At size p.lexer text) {x : σ} {states : List Bool} {q : Parser} {y : σ}
    (h : Succeeds config sax n (evaluateState config sax p x (true :: states)) q y) :
    ElementsRead size config sax n text x states q y := by
  simp only [evaluateState] at h
  split_ifs at h with hcomma hend
  · obtain ⟨s₁, rest₁, rfl, hspells₁, hleft₁⟩ := holds_punctuation hat hcomments rfl hcomma
    obtain ⟨element, s₂, rest₂, es, p₂, m₂, rfl, hspells₂, hes, hleft₂, hm₂, h⟩ :=
      hvalue hleft₁ h
    obtain ⟨elements, s₃, rest₃, fs, p₃, m₃, rfl, hspells₃, hfs, hleft₃, hm₃, h⟩ :=
      (ih m₂ hm₂).elements hleft₂ h
    refine ⟨element :: elements, s₁ ++ (s₂ ++ s₃), rest₃, es ++ fs, p₃, m₃, by simp,
      hspells₁ _ _ (hspells₂.append hspells₃), ?_, hleft₃, by omega, ?_⟩
    · simp [elementsEvents, hes, hfs]
    · simpa using h
  · obtain ⟨s₁, rest₁, rfl, hspells₁, hleft₁⟩ := holds_punctuation hat hcomments rfl hend
    rw [emit_lawful hsax] at h
    cases n with
    | zero => cases h
    | succ n =>
        rw [Succeeds, resume, saxParseLoop_succ] at h
        refine ⟨[], s₁, rest₁, [], _, n, rfl, ?_, rfl, hleft₁, Nat.lt_succ_self n, h⟩
        have := hspells₁ [] [] .nil
        rwa [List.append_nil] at this
  · exact absurd h (not_succeeds_reject hsax)

theorem sound_members (hsax : sax.Lawful) (hcomments : config.ignoreComments = false) {n : ℕ}
    (hvalue : SoundValue size config sax n) (ih : ∀ m < n, Sound size config sax m) {p : Parser}
    {text : Bytes} (hat : At size p.lexer text) {x : σ} {states : List Bool} {q : Parser} {y : σ}
    (h : Succeeds config sax n (evaluateState config sax p x (false :: states)) q y) :
    MembersRead size config sax n text x states q y := by
  simp only [evaluateState] at h
  split_ifs at h with hcomma hend
  · obtain ⟨s₁, rest₁, rfl, hspells₁, hleft₁⟩ := holds_punctuation hat hcomments rfl hcomma
    obtain ⟨key, s₂, rest₂, p₁, rfl, hspells₂, hleft₂, h⟩ :=
      key_of_succeeds hsax hcomments hleft₁ h
    obtain ⟨value, s₃, rest₃, es, p₃, m₃, rfl, hspells₃, hes, hleft₃, hm₃, h⟩ :=
      hvalue hleft₂ h
    obtain ⟨members, s₄, rest₄, fs, p₄, m₄, rfl, hspells₄, hfs, hleft₄, hm₄, h⟩ :=
      (ih m₃ hm₃).members hleft₃ h
    refine ⟨(key, value) :: members, s₁ ++ (s₂ ++ (s₃ ++ s₄)), rest₄,
      .key key :: (es ++ fs), p₄, m₄, by simp,
      hspells₁ _ _ (hspells₂ _ _ (hspells₃.append hspells₄)), ?_, hleft₄, by omega, ?_⟩
    · simp [membersEvents, hes, hfs]
    · simpa using h
  · obtain ⟨s₁, rest₁, rfl, hspells₁, hleft₁⟩ := holds_punctuation hat hcomments rfl hend
    rw [emit_lawful hsax] at h
    cases n with
    | zero => cases h
    | succ n =>
        rw [Succeeds, resume, saxParseLoop_succ] at h
        refine ⟨[], s₁, rest₁, [], _, n, rfl, ?_, rfl, hleft₁, Nat.lt_succ_self n, h⟩
        have := hspells₁ [] [] .nil
        rwa [List.append_nil] at this
  · exact absurd h (not_succeeds_reject hsax)

theorem sound (hsax : sax.Lawful) (hcomments : config.ignoreComments = false) (n : ℕ) :
    Sound size config sax n := by
  -- on the turns, of which every element takes some; the value first, the other two need it at `n`
  induction n using Nat.strong_induction_on with
  | h n ih =>
      have hvalue : SoundValue size config sax n := by
        intro p text x states q y hat h
        cases n with
        | zero => cases h
        | succ n =>
            rw [saxParseLoop_succ] at h
            exact sound_value hsax hcomments (fun m hm => ih m (Nat.lt_succ_of_le hm)) hat h
      exact ⟨hvalue, fun hat h => sound_elements hsax hcomments hvalue ih hat h,
        fun hat h => sound_members hsax hcomments hvalue ih hat h⟩

/-! ## Texts -/

theorem tokens_cons (t : Tree) : ∃ token tokens, t.tokens = token :: tokens := by
  cases t <;> exact ⟨_, _, rfl⟩

/-- The input is the text of a tree, perhaps behind a byte order mark, and then `after`. -/
def Spelled (t : Tree) (after input : Bytes) : Prop :=
  ∃ bom s, input = bom ++ (s ++ after) ∧ (bom = [] ∨ bom = [0xEF, 0xBB, 0xBF]) ∧ Spells t.tokens s

/-- No token and no white space begins like a byte order mark. -/
theorem spells_head {t : Tree} {s : Bytes} (h : Spells t.tokens s) (after : Bytes) :
    (s ++ after).head? ≠ some 0xEF := by
  obtain ⟨token, tokens, htokens⟩ := tokens_cons t
  rw [htokens] at h
  cases h with
  | @cons _ spaces spelled rest _ hspaces hspelling hrest =>
      -- without white space the token decides
      obtain ⟨c, more, rfl, -, hmark, -⟩ := spelling_cons hspelling
      cases spaces with
      | nil => simpa using hmark
      | cons b spaces =>
          have hspace := hspaces b List.mem_cons_self
          rintro h
          obtain rfl : b = 0xEF := by simpa using h
          revert hspace
          decide

/-- The first token, behind a byte order mark. -/
theorem new_of_spelled {t : Tree} {after input : Bytes} (h : Spelled t after input) :
    ∃ (size : ℕ) (p : Parser) (s : Bytes), Spells t.tokens s ∧ At size p.lexer (s ++ after) ∧
      new config input = p.getToken config := by
  obtain ⟨bom, s, rfl, rfl | rfl, hspells⟩ := h
  · exact ⟨_, ⟨.new (s ++ after), .uninitialized⟩, s, hspells,
      at_new (spells_head hspells after), rfl⟩
  · obtain ⟨l, hat, hscan⟩ := @scan_bom config (s ++ after)
    refine ⟨_, ⟨l, .uninitialized⟩, s, hspells, hat, ?_⟩
    simp only [new, getToken, List.cons_append, List.nil_append, hscan]

/-- The handler is told the events of the tree that the input spells. -/
theorem saxParseInternal_of_spelled (hsax : sax.Lawful) {t : Tree} {after input : Bytes}
    (h : Spelled t after input) (hafter : Delimited after) {es : List SaxEvent}
    (hes : treeEvents config t = some es) (x : σ) :
    ∃ (size : ℕ) (q : Parser), At size q.lexer after ∧
      saxParseInternal config sax (new config input) x = some (.ok (true, q, sax.run es x)) := by
  obtain ⟨size, p, s, hspells, hat, hnew⟩ := @new_of_spelled config t after input h
  obtain ⟨-, k, q, hat', hloop⟩ := reads_tree hsax t hes p s after x [] hspells hafter hat
  refine ⟨size, q, hat', ?_⟩
  have hresult := hloop 0
  rw [← hnew, Nat.zero_add] at hresult
  obtain ⟨result, hinternal⟩ :=
    Option.isSome_iff_exists.mp (saxParseInternal_isSome config sax input x)
  rw [hinternal]
  -- both are results of the same loop, with different numbers of turns
  cases k with
  | zero => cases hresult
  | succ k =>
      rw [saxParseInternal, saxParseLoop_succ] at hinternal
      rw [saxParseLoop_succ] at hresult
      have hfirst := resume_mono hinternal k
      rw [Nat.add_comm] at hfirst
      exact hfirst.symm.trans (resume_mono hresult _)

/-- What ends with `true` has read the text of a tree. -/
theorem spelled_of_saxParseInternal (hsax : sax.Lawful) (hcomments : config.ignoreComments = false)
    {input : Bytes} {x : σ} {q : Parser} {y : σ}
    (h : saxParseInternal config sax (new config input) x = some (.ok (true, q, y))) :
    ∃ (t : Tree) (after : Bytes) (es : List SaxEvent) (size : ℕ), Spelled t after input ∧
      treeEvents config t = some es ∧ At size q.lexer after ∧ y = sax.run es x := by
  rw [saxParseInternal] at h
  rcases @scan_new config input with herror | ⟨bom, body, l, rfl, hbom, hat, hscan⟩
  · have hfirst : (new config input).lastToken = .parseError := herror
    rw [saxParseLoop_succ] at h
    simp only [turn, Bool.false_eq_true, if_false, parseValue, hfirst] at h
    exact absurd h (not_succeeds_reject hsax)
  · have hnew : new config (bom ++ body) = getToken config ⟨l, .uninitialized⟩ := by
      simp only [new, getToken, hscan]
    rw [hnew] at h
    obtain ⟨t, s, after, es, p', m, rfl, hspells, hes, hat', -, hend⟩ :=
      (sound hsax hcomments _).value hat h
    cases hend
    exact ⟨t, after, es, _, ⟨bom, s, rfl, hbom, hspells⟩, hes, hat', rfl⟩

end Parser

end Structlog.Json
