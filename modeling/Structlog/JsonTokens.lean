import Structlog.JsonParser
import Structlog.JsonNumbers
import Mathlib.Data.List.TakeWhile

/-!
# Reading tokens

The two directions for `scan`: it reads every spelling of a token that a delimiter
follows (`scan_of_spelling`), and what it reads is white space and the spelling of
a token (`spelling_of_scan`).  `Yields` says what the parser finds of a token: its
type, and for a value the event it tells its handler.

What comes before the token is taken first.  White space is skipped to the first byte that
is none (`read_skipWhitespace`), and with comments forbidden nothing else is
(`scan_eq_scanToken`).  The switch of `scan` then has one case for each first byte:

* the six structural characters and the three literals, letter by letter
  (`scanLiteral_spec`, `literal_of_scanLiteral`);
* strings, for which `JsonStrings` has both directions;
* numbers, for which `JsonNumbers` has them; what is read behind the last byte of a number is
  given back, and the type it gets decides which value is told (`yields_scanNumberDone`).

`scanToken_of_spelling` and `scanToken_outcome` are the two directions of the switch.

`At` is where the parser is between two tokens: the lexer is ready to read the rest, and is
not at the mark that may stand in front of the input.  `scan_new` is the first token, with
the mark or without (`scan_bom`), and `scan_of_ending` and `ending_of_scan` are the last: the
end of the input, or a NUL byte.
-/

namespace Structlog.Json.Lexer

open Lib Lib.Utf8 Lib.JsonSyntax

variable {size : ℕ} {config : LexerConfig}

/-! ## What a token says -/

/-- A number that fits is an integer, and any other is what `strtod` makes of it. -/
def numberEvent (config : LexerConfig) (text : Bytes) : Option SaxEvent :=
  if numberType text = .valueUnsigned ∧ readDecimal text ≤ 18446744073709551615 then
    some (.numberUnsigned (readDecimal text))
  else if numberType text = .valueInteger ∧
      -9223372036854775808 ≤ -(readDecimal text.tail : ℤ) then
    some (.numberInteger (-(readDecimal text.tail : ℤ)))
  else
    (config.strtod (text.map (localize config))).map fun x =>
      .numberFloat x (text.map (localize config))

/-- The event of a value without parts. -/
def tokenEvent (config : LexerConfig) : Token → Option SaxEvent
  | .null => some .null
  | .boolean b => some (.boolean b)
  | .number text => numberEvent config text
  | .string s => some (.string s)
  | _ => none

/-- What `sax_parse_internal` tells the handler at the token it has. -/
def valueEvent (result : TokenType × Lexer) : Option SaxEvent :=
  match result.1 with
  | .literalNull => some .null
  | .literalTrue => some (.boolean true)
  | .literalFalse => some (.boolean false)
  | .valueString => some (.string result.2.tokenBuffer)
  | .valueUnsigned => some (.numberUnsigned result.2.valueUnsigned)
  | .valueInteger => some (.numberInteger result.2.valueInteger)
  | .valueFloat =>
      result.2.valueFloat.map fun x => .numberFloat x result.2.tokenBuffer
  | _ => none

/-- The types of a token. -/
def Kind : Token → TokenType → Prop
  | .null, t => t = .literalNull
  | .boolean b, t => t = if b then .literalTrue else .literalFalse
  | .number _, t => t = .valueUnsigned ∨ t = .valueInteger ∨ t = .valueFloat
  | .string _, t => t = .valueString
  | .beginArray, t => t = .beginArray
  | .endArray, t => t = .endArray
  | .beginObject, t => t = .beginObject
  | .endObject, t => t = .endObject
  | .nameSeparator, t => t = .nameSeparator
  | .valueSeparator, t => t = .valueSeparator

/-- The scan found the token and left `rest`. -/
structure Yields (size : ℕ) (config : LexerConfig) (token : Token) (rest : Bytes)
    (result : TokenType × Lexer) : Prop where
  kind : Kind token result.1
  event : valueEvent result = tokenEvent config token
  ready : result.2.Ready size rest

theorem head_append_tail (text : Bytes) : text.head?.toList ++ text.tail = text := by
  cases text <;> rfl

theorem numberType_cases (text : Bytes) :
    numberType text = .valueFloat ∨ ¬ Marked text := by
  by_cases h : Marked text
  · exact .inl (if_pos h)
  · exact .inr h

/-- `scan_number_done` converts what was taken. -/
theorem yields_scanNumberDone {l : Lexer} {text rest : Bytes}
    (h : l.Read size rest.head? rest.tail) (hbuffer : l.tokenBuffer = text.map (localize config)) :
    Yields size config (.number text) rest (scanNumberDone config (numberType text) l) := by
  have hready : l.unget.Ready size rest := by
    have hready := h.unget
    rwa [head_append_tail] at hready
  have hsame {l' : Lexer} (hunget : l'.nextUnget = l.unget.nextUnget)
      (hcurrent : l'.current = l.unget.current) (hia : l'.ia = l.unget.ia)
      (hposition : l'.position = l.unget.position) : l'.Ready size rest :=
    ⟨by rw [pending, hunget, hcurrent, hia]; exact hready.pending,
      by rw [hunget, hcurrent, hia]; exact hready.ended,
      by rw [hposition]; exact hready.counted⟩
  have hdigits (hunmarked : ¬ Marked text) : l.unget.tokenBuffer = text := by
    rw [unget_tokenBuffer, hbuffer, localize_unmarked hunmarked]
  rw [scanNumberDone]
  rcases numberType_cases text with hfloat | hunmarked
  · -- a float is never an integer
    rw [hfloat, if_neg (by simp), if_neg (by simp)]
    refine ⟨.inr (.inr rfl), ?_, hsame rfl rfl rfl rfl⟩
    simp [valueEvent, tokenEvent, numberEvent, hfloat, hbuffer]
  · rw [hdigits hunmarked]
    split_ifs with hunsigned hinteger
    · refine ⟨.inl rfl, ?_, hsame rfl rfl rfl rfl⟩
      simp only [valueEvent, tokenEvent, numberEvent, if_pos hunsigned]
    · refine ⟨.inr (.inl rfl), ?_, hsame rfl rfl rfl rfl⟩
      simp only [valueEvent, tokenEvent, numberEvent, if_neg hunsigned, if_pos hinteger]
    · refine ⟨.inr (.inr rfl), ?_, hsame rfl rfl rfl rfl⟩
      simp only [valueEvent, tokenEvent, numberEvent, if_neg hunsigned, if_neg hinteger,
        localize_unmarked hunmarked]

/-! ## White space -/

theorem skipWhitespaceLoop_spec {text : Bytes} {l : Lexer} (h : l.Ready size text) {n : ℕ}
    (hn : text.length < n) :
    (skipWhitespaceLoop n l).Read size (text.dropWhile (IsSpace ·)).head?
      (text.dropWhile (IsSpace ·)).tail := by
  induction text generalizing l n with
  | nil =>
      obtain ⟨n, rfl⟩ := Nat.exists_eq_add_of_lt hn
      have hread := h.get_nil
      rw [skipWhitespaceLoop, hread.current]
      simpa using hread
  | cons c text ih =>
      obtain ⟨n, rfl⟩ := Nat.exists_eq_add_of_lt (Nat.zero_lt_of_lt hn)
      have hread := h.get_cons
      have hisSpace : (c = 0x20 ∨ c = 0x09 ∨ c = 0x0A ∨ c = 0x0D) = IsSpace c := rfl
      rw [skipWhitespaceLoop, hread.current]
      simp only [Option.some.injEq, hisSpace]
      by_cases hspace : IsSpace c
      · rw [if_pos hspace, List.dropWhile_cons_of_pos (by simpa using hspace)]
        refine ih hread.ready ?_
        rw [List.length_cons] at hn
        omega
      · rw [if_neg hspace, List.dropWhile_cons_of_neg (by simpa using hspace)]
        exact hread

theorem read_skipWhitespace {text : Bytes} {l : Lexer} (h : l.Ready size text) :
    l.skipWhitespace.Read size (text.dropWhile (IsSpace ·)).head?
      (text.dropWhile (IsSpace ·)).tail := by
  refine skipWhitespaceLoop_spec h ?_
  rw [h.turns]
  exact Nat.lt_succ_self _

theorem dropWhile_spaces {spaces : Bytes} (hspaces : Spaces spaces) {c : UInt8}
    (hc : ¬ IsSpace c) (more : Bytes) :
    (spaces ++ c :: more).dropWhile (IsSpace ·) = c :: more := by
  rw [List.dropWhile_append_of_pos (by simpa [Spaces] using hspaces),
    List.dropWhile_cons_of_neg (by simpa using hc)]

theorem spaces_takeWhile (text : Bytes) : Spaces (text.takeWhile (IsSpace ·)) := by
  intro b hb
  simpa using List.mem_takeWhile_imp hb

theorem skipComments_eq {l : Lexer} (n : ℕ)
    (hslash : config.ignoreComments = true → l.current ≠ some 0x2F) :
    skipComments config n l = (true, l) := by
  cases n with
  | zero => rfl
  | succ n =>
      rw [skipComments, if_neg]
      rintro ⟨hcomments, hcurrent⟩
      exact hslash hcomments hcurrent

/-- Without a byte order mark nothing is skipped. -/
theorem skipBom_ready {l : Lexer} {text : Bytes} (h : l.Ready size text)
    (hbom : l.position.charsReadTotal = 0 → text.head? ≠ some 0xEF) :
    ∃ l' : Lexer, (if l.position.charsReadTotal = 0 then skipBom l else (true, l)) = (true, l') ∧
      l'.Ready size text := by
  by_cases htotal : l.position.charsReadTotal = 0
  · have hread := h.get
    -- the first byte is read and given back
    refine ⟨l.get.unget, ?_, ?_⟩
    · rw [if_pos htotal, skipBom]
      simp only [hread.current, if_neg (hbom htotal)]
    · have hready := hread.unget
      rwa [head_append_tail] at hready
  · exact ⟨l, if_neg htotal, h⟩

/-- Behind white space, `scan` is its switch. -/
theorem scan_eq_scanToken {l : Lexer} {text : Bytes} (h : l.Ready size text)
    (hbom : l.position.charsReadTotal = 0 → text.head? ≠ some 0xEF)
    (hslash : config.ignoreComments = true → (text.dropWhile (IsSpace ·)).head? ≠ some 0x2F) :
    ∃ l' : Lexer, l'.Read size (text.dropWhile (IsSpace ·)).head?
      (text.dropWhile (IsSpace ·)).tail ∧ scan config l = scanToken config l' := by
  obtain ⟨l₁, hskip, hready⟩ := skipBom_ready h hbom
  have hread := read_skipWhitespace hready
  refine ⟨l₁.skipWhitespace, hread, ?_⟩
  rw [scan]
  simp only [hskip, if_true]
  rw [skipComments_eq _ fun hcomments => hread.current ▸ hslash hcomments]
  simp only [if_true]

/-! ## Literals -/

theorem scanLiteral_spec {literalText rest : Bytes} {l : Lexer}
    (h : l.Ready size (literalText ++ rest)) (returnType : TokenType) :
    (scanLiteral literalText returnType l).1 = returnType ∧
      (scanLiteral literalText returnType l).2.Ready size rest ∧
      (scanLiteral literalText returnType l).2.tokenBuffer = l.tokenBuffer := by
  induction literalText generalizing l with
  | nil => exact ⟨rfl, h, rfl⟩
  | cons letter literalText ih =>
      have hread := h.get_cons
      rw [scanLiteral]
      simp only [hread.current, if_true]
      exact ih hread.ready

theorem literal_of_scanLiteral {literalText text : Bytes} {l : Lexer} (h : l.Ready size text)
    {returnType : TokenType}
    (hok : (scanLiteral literalText returnType l).1 ≠ .parseError) :
    ∃ rest, text = literalText ++ rest := by
  induction literalText generalizing l text with
  | nil => exact ⟨text, rfl⟩
  | cons letter literalText ih =>
      rw [scanLiteral] at hok
      simp only at hok
      split_ifs at hok with hletter
      · obtain ⟨more, rfl, hread⟩ := h.cons_of_current hletter
        obtain ⟨rest, rfl⟩ := ih hread.ready hok
        exact ⟨rest, rfl⟩
      · exact absurd rfl hok

/-! ## The two directions -/

theorem numberStart_iff (c : UInt8) :
    (c = 0x2D ∨ 0x30 ≤ c ∧ c ≤ 0x39) ↔ ∃ σ, NumberStage.init.next c = some σ := by
  have hdigit : (0x30 ≤ c ∧ c ≤ 0x39) = IsDigit c := rfl
  rw [hdigit, NumberStage.next]
  split_ifs with h₁ h₂ h₃
  · simp [h₁]
  · simp [h₂, show IsDigit 0x30 by decide]
  · simp [h₃]
  · simp [h₁, h₃]

theorem scanToken_number {l : Lexer} {c : UInt8} (hc : l.current = some c) {σ : NumberStage}
    (hnext : NumberStage.init.next c = some σ) : scanToken config l = scanNumber config c l := by
  have hstart : c = 0x2D ∨ 0x30 ≤ c ∧ c ≤ 0x39 := (numberStart_iff c).mpr ⟨σ, hnext⟩
  have hne {d : UInt8} (hd : NumberStage.init.next d = none) : c ≠ d := by
    rintro rfl
    rw [hnext] at hd
    cases hd
  rw [scanToken, hc]
  dsimp only
  rw [if_neg (hne rfl), if_neg (hne rfl), if_neg (hne rfl), if_neg (hne rfl), if_neg (hne rfl),
    if_neg (hne rfl), if_neg (hne rfl), if_neg (hne rfl), if_neg (hne rfl), if_neg (hne rfl),
    if_pos hstart]

/-- Every spelling is read, a number if a delimiter follows it. -/
theorem scanToken_of_spelling {token : Token} {c : UInt8} {more rest : Bytes}
    (hspelling : Spelling token (c :: more)) {l : Lexer} (h : l.Read size (some c) (more ++ rest))
    (hrest : ∀ text, token = .number text → Delimited rest) :
    Yields size config token rest (scanToken config l) := by
  have hc := h.current
  generalize hsource : c :: more = source at hspelling
  cases hspelling with
  | null =>
      obtain ⟨rfl, rfl⟩ := List.cons_eq_cons.mp hsource
      obtain ⟨htoken, hready, -⟩ :=
        @scanLiteral_spec size (ascii "ull") rest l h.ready .literalNull
      have hscan : scanToken config l = scanLiteral (ascii "ull") .literalNull l := by
        rw [scanToken, hc]
        rfl
      rw [hscan]
      exact ⟨htoken, by rw [valueEvent, htoken]; rfl, hready⟩
  | yes =>
      obtain ⟨rfl, rfl⟩ := List.cons_eq_cons.mp hsource
      obtain ⟨htoken, hready, -⟩ :=
        @scanLiteral_spec size (ascii "rue") rest l h.ready .literalTrue
      have hscan : scanToken config l = scanLiteral (ascii "rue") .literalTrue l := by
        rw [scanToken, hc]
        rfl
      rw [hscan]
      exact ⟨htoken, by rw [valueEvent, htoken]; rfl, hready⟩
  | no =>
      obtain ⟨rfl, rfl⟩ := List.cons_eq_cons.mp hsource
      obtain ⟨htoken, hready, -⟩ :=
        @scanLiteral_spec size (ascii "alse") rest l h.ready .literalFalse
      have hscan : scanToken config l = scanLiteral (ascii "alse") .literalFalse l := by
        rw [scanToken, hc]
        rfl
      rw [hscan]
      exact ⟨htoken, by rw [valueEvent, htoken]; rfl, hready⟩
  | number hnumber =>
      subst hsource
      -- what follows does not go on with the number, so the automaton takes all of it and no more
      obtain ⟨τ, hrun, hτ⟩ := (NumberStage.accepts_iff .init _).mpr hnumber
      have hmunch := NumberStage.munch_of_run hrun hτ (hrest _ rfl)
      cases hnext : NumberStage.init.next c with
      | none =>
          rw [NumberStage.run, hnext] at hrun
          cases hrun
      | some σ =>
          obtain ⟨l', hread, hbuffer, hdone, -⟩ :=
            @scanNumber_munch size config l c (more ++ rest) h σ hnext τ _ _ hmunch
          rw [scanToken_number hc hnext, hdone hτ]
          exact yields_scanNumberDone hread hbuffer
  | @string body s hbody =>
      obtain ⟨rfl, rfl⟩ := List.cons_eq_cons.mp hsource
      rw [List.append_assoc] at h
      obtain ⟨htoken, hready, hbuffer⟩ := scanString_of_literal hbody h
      rw [show scanToken config l = scanString l by rw [scanToken, hc]; rfl]
      exact ⟨htoken, by rw [valueEvent, htoken, hbuffer]; rfl, hready⟩
  | beginArray | endArray | beginObject | endObject | nameSeparator | valueSeparator =>
      obtain ⟨rfl, rfl⟩ := List.cons_eq_cons.mp hsource
      simp only [scanToken, hc]
      exact ⟨rfl, rfl, h.ready⟩

/-- A number that was scanned, whatever follows it. -/
theorem number_of_scanNumber {l : Lexer} {c : UInt8} {text : Bytes} (h : l.Read size (some c) text)
    {σ : NumberStage} (hnext : NumberStage.init.next c = some σ)
    (hok : (scanNumber config c l).1 ≠ .parseError) :
    ∃ more rest, text = more ++ rest ∧ Number (c :: more) ∧
      Yields size config (.number (c :: more)) rest (scanNumber config c l) := by
  rcases hmunch : NumberStage.init.munch (c :: text) with ⟨τ, taken, rest⟩
  obtain ⟨l', hread, hbuffer, hdone, herror⟩ :=
    @scanNumber_munch size config l c text h σ hnext τ taken rest hmunch
  have happend := NumberStage.munch_append .init (c :: text)
  have hrun := NumberStage.run_munch .init (c :: text)
  rw [hmunch] at happend hrun
  cases taken with
  | nil =>
      -- the first byte begins a number, so it has been taken
      rw [NumberStage.munch, hnext] at hmunch
      simp at hmunch
  | cons d more =>
      obtain ⟨rfl, rfl⟩ := List.cons_eq_cons.mp happend
      cases hτ : τ.accepting with
      | false => exact absurd (herror hτ) hok
      | true =>
          rw [hdone hτ]
          exact ⟨more, rest, rfl, (NumberStage.accepts_iff .init _).mp ⟨τ, hrun, hτ⟩,
            yields_scanNumberDone hread hbuffer⟩

/-- What is read is the spelling of a token, and the input ends early only at a null byte. -/
theorem scanToken_outcome {l : Lexer} {c : UInt8} {text : Bytes} (h : l.Read size (some c) text)
    (herror : (scanToken config l).1 ≠ .parseError) :
    ((scanToken config l).1 = .endOfInput ∧ c = 0) ∨
      ∃ token more rest, text = more ++ rest ∧ Spelling token (c :: more) ∧
        Yields size config token rest (scanToken config l) := by
  have hc := h.current
  -- a token that is told by its first byte
  have hsingle (token : Token) (hspelling : Spelling token [c])
      (hnumber : ∀ s, token ≠ .number s) :
      ∃ token more rest, text = more ++ rest ∧ Spelling token (c :: more) ∧
        Yields size config token rest (scanToken config l) :=
    ⟨token, [], text, rfl, hspelling,
      scanToken_of_spelling hspelling h fun s hs => absurd hs (hnumber s)⟩
  -- a literal, of which the rest was scanned
  have hliteral (token : Token) (literalText : Bytes) (returnType : TokenType)
      (hspelling : Spelling token (c :: literalText)) (hnumber : ∀ s, token ≠ .number s)
      (hswitch : scanToken config l = scanLiteral literalText returnType l) :
      ∃ token more rest, text = more ++ rest ∧ Spelling token (c :: more) ∧
        Yields size config token rest (scanToken config l) := by
    rw [hswitch] at herror
    obtain ⟨rest, rfl⟩ := literal_of_scanLiteral h.ready herror
    exact ⟨token, literalText, rest, rfl, hspelling,
      scanToken_of_spelling hspelling h fun s hs => absurd hs (hnumber s)⟩
  by_cases h₁ : c = 0x5B
  · subst h₁
    exact .inr (hsingle .beginArray .beginArray (by simp))
  by_cases h₂ : c = 0x5D
  · subst h₂
    exact .inr (hsingle .endArray .endArray (by simp))
  by_cases h₃ : c = 0x7B
  · subst h₃
    exact .inr (hsingle .beginObject .beginObject (by simp))
  by_cases h₄ : c = 0x7D
  · subst h₄
    exact .inr (hsingle .endObject .endObject (by simp))
  by_cases h₅ : c = 0x3A
  · subst h₅
    exact .inr (hsingle .nameSeparator .nameSeparator (by simp))
  by_cases h₆ : c = 0x2C
  · subst h₆
    exact .inr (hsingle .valueSeparator .valueSeparator (by simp))
  by_cases h₇ : c = 0x74
  · subst h₇
    exact .inr (hliteral (.boolean true) (ascii "rue") .literalTrue .yes (by simp)
      (by rw [scanToken, hc]; rfl))
  by_cases h₈ : c = 0x66
  · subst h₈
    exact .inr (hliteral (.boolean false) (ascii "alse") .literalFalse .no (by simp)
      (by rw [scanToken, hc]; rfl))
  by_cases h₉ : c = 0x6E
  · subst h₉
    exact .inr (hliteral .null (ascii "ull") .literalNull .null (by simp)
      (by rw [scanToken, hc]; rfl))
  by_cases h₁₀ : c = 0x22
  · subst h₁₀
    have hswitch : scanToken config l = scanString l := by rw [scanToken, hc]; rfl
    obtain ⟨body, s, rest, rfl, hbody, hstring⟩ :=
      literal_of_scanString h (scanString_token (hswitch ▸ herror))
    exact .inr ⟨.string s, body ++ [0x22], rest, by simp, .string hbody,
      scanToken_of_spelling (.string hbody) (by simpa using h) fun s hs => by cases hs⟩
  by_cases h₁₁ : c = 0x2D ∨ 0x30 ≤ c ∧ c ≤ 0x39
  · obtain ⟨σ, hnext⟩ := (numberStart_iff c).mp h₁₁
    rw [scanToken_number hc hnext] at herror ⊢
    obtain ⟨more, rest, rfl, hnumber, hyields⟩ := number_of_scanNumber h hnext herror
    exact .inr ⟨.number (c :: more), more, rest, rfl, .number hnumber, hyields⟩
  · -- the end of the input, or no token
    left
    rw [scanToken, hc] at herror ⊢
    dsimp only at herror ⊢
    rw [if_neg h₁, if_neg h₂, if_neg h₃, if_neg h₄, if_neg h₅, if_neg h₆, if_neg h₇, if_neg h₈,
      if_neg h₉, if_neg h₁₀, if_neg h₁₁] at herror ⊢
    by_cases hzero : c = 0
    · exact ⟨by rw [if_pos hzero], hzero⟩
    · rw [if_neg hzero] at herror
      exact absurd rfl herror

/-! ## Between tokens -/

/-- `text` is left, and a byte order mark is not skipped any more. -/
structure At (size : ℕ) (l : Lexer) (text : Bytes) : Prop where
  ready : l.Ready size text
  marked : l.position.charsReadTotal = 0 → text.head? ≠ some 0xEF
  bounded : text.length ≤ size

theorem at_new {input : Bytes} (h : input.head? ≠ some 0xEF) :
    At input.length (new input) input := ⟨ready_new input, fun _ => h, Nat.le_refl _⟩

/-- Once something is read, no byte is taken for a byte order mark. -/
theorem At.shorter {l l' : Lexer} {text rest : Bytes} (h : At size l text)
    (hready : l'.Ready size rest) (hlength : rest.length < text.length) : At size l' rest := by
  have hcounted := hready.counted
  have hbounded := h.bounded
  exact ⟨hready, fun htotal => by omega, by omega⟩

theorem spelling_cons {token : Token} {spelled : Bytes} (h : Spelling token spelled) :
    ∃ c more, spelled = c :: more ∧ ¬ IsSpace c ∧ c ≠ 0xEF ∧ c ≠ 0x2F := by
  cases h with
  | null => exact ⟨_, _, rfl, by decide⟩
  | yes => exact ⟨_, _, rfl, by decide⟩
  | no => exact ⟨_, _, rfl, by decide⟩
  | string _ => exact ⟨_, _, rfl, by decide⟩
  | beginArray | endArray | beginObject | endObject | nameSeparator | valueSeparator =>
      exact ⟨_, _, rfl, by decide⟩
  | number hnumber =>
      obtain ⟨τ, hrun, hτ⟩ := (NumberStage.accepts_iff .init _).mpr hnumber
      cases spelled with
      | nil =>
          obtain rfl := Option.some.inj hrun
          cases hτ
      | cons c more =>
          have hnone (d : UInt8) (hd : NumberStage.init.next d = none) : c ≠ d := by
            rintro rfl
            rw [NumberStage.run, hd] at hrun
            cases hrun
          refine ⟨c, more, rfl, ?_, hnone 0xEF rfl, hnone 0x2F rfl⟩
          rintro (rfl | rfl | rfl | rfl) <;> exact absurd rfl (hnone _ rfl)

theorem kind_ne_end {token : Token} {t : TokenType} (h : Kind token t) : t ≠ .endOfInput := by
  rintro rfl
  cases token with
  | boolean b => cases b <;> cases h
  | number text => rcases h with h | h | h <;> cases h
  | _ => cases h

theorem Yields.at {token : Token} {l : Lexer} {spaces spelled rest : Bytes}
    {result : TokenType × Lexer} (h : Yields size config token rest result)
    (hat : At size l (spaces ++ (spelled ++ rest))) (hspelling : Spelling token spelled) :
    At size result.2 rest := by
  obtain ⟨c, more, rfl, -⟩ := spelling_cons hspelling
  refine hat.shorter h.ready ?_
  simp only [List.length_append, List.length_cons]
  omega

/-- Every spelling of a token that a delimiter follows is read, with white space before it. -/
theorem scan_of_spelling {token : Token} {spaces spelled rest : Bytes} (hspaces : Spaces spaces)
    (hspelling : Spelling token spelled) {l : Lexer} (h : At size l (spaces ++ (spelled ++ rest)))
    (hrest : ∀ text, token = .number text → Delimited rest) :
    Yields size config token rest (scan config l) := by
  obtain ⟨c, more, rfl, hspace, -, hslash⟩ := spelling_cons hspelling
  have hdrop := dropWhile_spaces hspaces hspace (more ++ rest)
  rw [← List.cons_append] at hdrop
  obtain ⟨l', hread, hscan⟩ := @scan_eq_scanToken size config l _ h.ready h.marked
    (by rw [hdrop]; simpa using fun _ => hslash)
  rw [hdrop] at hread
  rw [hscan]
  exact scanToken_of_spelling hspelling hread hrest

/-- What `scan` reads is white space and the spelling of a token. -/
theorem spelling_of_scan {text : Bytes} {l : Lexer} (h : At size l text)
    (hcomments : config.ignoreComments = false) (herror : (scan config l).1 ≠ .parseError)
    (hend : (scan config l).1 ≠ .endOfInput) :
    ∃ token spaces spelled rest, text = spaces ++ (spelled ++ rest) ∧ Spaces spaces ∧
      Spelling token spelled ∧ Yields size config token rest (scan config l) := by
  obtain ⟨l', hread, hscan⟩ := @scan_eq_scanToken size config l text h.ready h.marked
    (by simp [hcomments])
  rw [hscan] at herror hend ⊢
  have hsplit := List.takeWhile_append_dropWhile (p := (IsSpace ·)) (l := text)
  cases hdrop : text.dropWhile (IsSpace ·) with
  | nil =>
      rw [hdrop] at hread
      rw [scanToken, hread.current] at hend
      exact absurd rfl hend
  | cons c more =>
      rw [hdrop] at hread hsplit
      obtain ⟨htoken, -⟩ | ⟨token, tail, rest, rfl, hspelling, hyields⟩ :=
        scanToken_outcome hread herror
      · exact absurd htoken hend
      exact ⟨token, _, c :: tail, rest, hsplit.symm, spaces_takeWhile text, hspelling, hyields⟩

/-- White space, and then nothing or a null byte, behind which nothing is read. -/
def Ending (text : Bytes) : Prop :=
  ∃ spaces rest, text = spaces ++ rest ∧ Spaces spaces ∧ (rest = [] ∨ rest.head? = some 0)

theorem Ending.delimited {text : Bytes} (h : Ending text) : Delimited text := by
  obtain ⟨spaces, rest, rfl, hspaces, rfl | hhead⟩ := h
  · exact delimited_spaces hspaces (by simp [Delimited])
  · refine delimited_spaces hspaces fun b hb => ?_
    obtain rfl := Option.some.inj (hhead.symm.trans hb)
    exact delimiter_of_ne (by decide) (by decide) (by decide) (by decide)

theorem scan_of_ending {text : Bytes} {l : Lexer} (h : At size l text) (hending : Ending text) :
    (scan config l).1 = .endOfInput := by
  obtain ⟨spaces, rest, rfl, hspaces, hrest⟩ := hending
  have hdrop : (spaces ++ rest).dropWhile (IsSpace ·) = rest := by
    rw [List.dropWhile_append_of_pos (by simpa [Spaces] using hspaces)]
    rcases hrest with rfl | hhead
    · rfl
    · obtain ⟨junk, rfl⟩ := List.head?_eq_some_iff.mp hhead
      rfl
  obtain ⟨l', hread, hscan⟩ := @scan_eq_scanToken size config l _ h.ready h.marked
    (by rw [hdrop]; rcases hrest with rfl | hhead <;> simp [*])
  rw [hdrop] at hread
  rw [hscan, scanToken, hread.current]
  rcases hrest with rfl | hhead
  · rfl
  · rw [hhead]
    rfl

theorem ending_of_scan {text : Bytes} {l : Lexer} (h : At size l text)
    (hcomments : config.ignoreComments = false) (hend : (scan config l).1 = .endOfInput) :
    Ending text := by
  obtain ⟨l', hread, hscan⟩ := @scan_eq_scanToken size config l text h.ready h.marked
    (by simp [hcomments])
  rw [hscan] at hend
  refine ⟨_, _, List.takeWhile_append_dropWhile.symm, spaces_takeWhile text, ?_⟩
  cases hdrop : text.dropWhile (IsSpace ·) with
  | nil => exact .inl rfl
  | cons c more =>
      rw [hdrop] at hread
      have herror : (scanToken config l').1 ≠ .parseError := by
        rw [hend]
        decide
      obtain ⟨-, rfl⟩ | ⟨token, _, _, -, -, hyields⟩ := scanToken_outcome hread herror
      · exact .inr rfl
      · exact absurd hend (kind_ne_end hyields.kind)

/-! ## The byte order mark -/

/-- A byte order mark is skipped. -/
theorem scan_bom (body : Bytes) :
    ∃ l : Lexer, At (body.length + 3) l body ∧
      scan config (new (0xEF :: 0xBB :: 0xBF :: body)) = scan config l := by
  have h := ready_new (0xEF :: 0xBB :: 0xBF :: body)
  have h₁ := h.get_cons
  have h₂ := h₁.ready.get_cons
  have h₃ := h₂.ready.get_cons
  have htotal : (new (0xEF :: 0xBB :: 0xBF :: body)).get.get.get.position.charsReadTotal = 3 := by
    simp only [get_charsReadTotal]
    rfl
  refine ⟨_, ⟨h₃.ready, fun hzero => ?_, Nat.le_add_right _ _⟩, ?_⟩
  · rw [htotal] at hzero
    cases hzero
  · have hskip : skipBom (new (0xEF :: 0xBB :: 0xBF :: body)) =
        (true, (new (0xEF :: 0xBB :: 0xBF :: body)).get.get.get) := by
      rw [skipBom]
      simp only [h₁.current, h₂.current, h₃.current, if_true, decide_true]
    rw [scan, scan, if_pos (show (new _).position.charsReadTotal = 0 from rfl), hskip,
      if_neg (by rw [htotal]; decide)]

/-- The first scan: a text that is no byte order mark in its first bytes is an error. -/
theorem scan_new (input : Bytes) :
    (scan config (new input)).1 = .parseError ∨
      ∃ bom body l, input = bom ++ body ∧ (bom = [] ∨ bom = [0xEF, 0xBB, 0xBF]) ∧
        At input.length l body ∧ scan config (new input) = scan config l := by
  by_cases hhead : input.head? = some 0xEF
  · obtain ⟨rest, rfl⟩ := List.head?_eq_some_iff.mp hhead
    by_cases hbom : ∃ body, rest = 0xBB :: 0xBF :: body
    · obtain ⟨body, rfl⟩ := hbom
      obtain ⟨l, hat, hscan⟩ := @scan_bom config body
      exact .inr ⟨[0xEF, 0xBB, 0xBF], body, l, rfl, .inr rfl, hat, hscan⟩
    · left
      have h₁ := (ready_new (0xEF :: rest)).get_cons
      have hskip : (skipBom (new (0xEF :: rest))).1 = false := by
        rw [skipBom]
        simp only [h₁.current, if_true]
        by_cases hsecond : (new (0xEF :: rest)).get.get.current = some 0xBB
        · obtain ⟨more, rfl, h₂⟩ := h₁.ready.cons_of_current hsecond
          rw [if_pos hsecond, decide_eq_false_iff_not]
          intro hthird
          obtain ⟨body, rfl, -⟩ := h₂.ready.cons_of_current hthird
          exact hbom ⟨body, rfl⟩
        · rw [if_neg hsecond]
      rw [scan, if_pos (show (new _).position.charsReadTotal = 0 from rfl)]
      simp [hskip]
  · exact .inr ⟨[], input, new input, rfl, .inl rfl, at_new hhead, rfl⟩

end Structlog.Json.Lexer
