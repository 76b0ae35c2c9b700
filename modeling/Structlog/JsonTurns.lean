import Structlog.JsonLoops

/-!
# The loop of the parser ends

Whatever the input, the configuration and the handler, `sax_parse_internal` comes
to an end, after at most two turns more than bytes are left to it.  A turn that goes
on has read a token, and a token that is not an error or the end of the input has
taken a byte (`yields_of_scan`); this is also so behind a comment.

`Within` says how much the last token has left to read, and `Closer` that a turn which
goes on has left less than it has found.  Each function of the loop has its lemma
(`closer_parseKey`, `closer_evaluateState`, `closer_parseValue`), and `isSome_resume` is the
induction on the turns.  The loop's own fuel gives `none` when it is used up, so that
`saxParseInternal_isSome` says that this does not happen; those of the lexer, which answer
something then, are settled in `JsonLoops`.  `parse_returns` takes both together.
-/

namespace Structlog.Json

open Lib Lib.Utf8 Lib.JsonSyntax

variable {size : ℕ} {config : LexerConfig}

namespace Lexer

/-! ## Comments -/

theorem ready_scanLineComment {text : Bytes} {l : Lexer} (h : l.Ready size text) (n : ℕ) :
    ∃ rest, (scanLineComment n l).Ready size rest ∧ rest.length ≤ text.length := by
  induction n generalizing l text with
  | zero => exact ⟨text, h, Nat.le_refl _⟩
  | succ n ih =>
      have hread := h.get
      have htail : text.tail.length ≤ text.length := by simp
      rw [scanLineComment]
      split_ifs
      · exact ⟨text.tail, hread.ready, htail⟩
      · obtain ⟨rest, hready, hlength⟩ := ih hread.ready
        exact ⟨rest, hready, hlength.trans htail⟩

theorem ready_scanBlockComment {text : Bytes} {l : Lexer} (h : l.Ready size text) (n : ℕ)
    (hok : (scanBlockComment n l).1 = true) :
    ∃ rest, (scanBlockComment n l).2.Ready size rest ∧ rest.length ≤ text.length := by
  induction n generalizing l text with
  | zero => cases hok
  | succ n ih =>
      have hread := h.get
      have htail : text.tail.length ≤ text.length := by simp
      rw [scanBlockComment] at hok ⊢
      dsimp only at hok ⊢
      by_cases hend : l.get.current = none ∨ l.get.current = some 0
      · rw [if_pos hend] at hok
        cases hok
      · rw [if_neg hend] at hok ⊢
        by_cases hstar : l.get.current = some 0x2A
        · have hread' := hread.ready.get
          rw [if_pos hstar] at hok ⊢
          by_cases hslash : l.get.get.current = some 0x2F
          · rw [if_pos hslash]
            exact ⟨text.tail.tail, hread'.ready, by simp; omega⟩
          · rw [if_neg hslash] at hok ⊢
            have hready := hread'.unget
            rw [head_append_tail] at hready
            obtain ⟨rest, hready, hlength⟩ := ih hready hok
            exact ⟨rest, hready, hlength.trans htail⟩
        · rw [if_neg hstar] at hok ⊢
          obtain ⟨rest, hready, hlength⟩ := ih hread.ready hok
          exact ⟨rest, hready, hlength.trans htail⟩

theorem ready_scanComment {text : Bytes} {l : Lexer} (h : l.Ready size text)
    (hok : (scanComment l).1 = true) :
    ∃ rest, (scanComment l).2.Ready size rest ∧ rest.length ≤ text.length := by
  have hread := h.get
  have htail : text.tail.length ≤ text.length := by simp
  rw [scanComment] at hok ⊢
  split_ifs at hok ⊢
  · obtain ⟨rest, hready, hlength⟩ := ready_scanLineComment hread.ready l.get.turns
    exact ⟨rest, hready, hlength.trans htail⟩
  · obtain ⟨rest, hready, hlength⟩ := ready_scanBlockComment hread.ready l.get.turns hok
    exact ⟨rest, hready, hlength.trans htail⟩

/-- White space and comments only ever take bytes. -/
theorem read_skipComments {text : Bytes} {l : Lexer} (h : l.Read size text.head? text.tail)
    (n : ℕ) (hok : (skipComments config n l).1 = true) :
    ∃ rest : Bytes, (skipComments config n l).2.Read size rest.head? rest.tail ∧
      rest.length ≤ text.length := by
  induction n generalizing l text with
  | zero => exact ⟨text, h, Nat.le_refl _⟩
  | succ n ih =>
      rw [skipComments] at hok ⊢
      by_cases hslash : config.ignoreComments = true ∧ l.current = some 0x2F
      · rw [if_pos hslash] at hok ⊢
        cases hscanned : (scanComment l).1 with
        | false => simp [hscanned] at hok
        | true =>
            simp only [hscanned, if_true] at hok ⊢
            -- a comment, the white space behind it, and the rest by induction
            obtain ⟨rest, hready, hlength⟩ := ready_scanComment h.ready hscanned
            obtain ⟨rest', hread, hlength'⟩ := ih (read_skipWhitespace hready) hok
            refine ⟨rest', hread, hlength'.trans ?_⟩
            have hdrop := (List.dropWhile_suffix (l := rest) (IsSpace ·)).length_le
            have htail : text.tail.length ≤ text.length := by simp
            omega
      · rw [if_neg hslash]
        exact ⟨text, h, Nat.le_refl _⟩

/-- A token that is neither an error nor the end has taken a byte. -/
theorem yields_of_scan {text : Bytes} {l : Lexer} (h : At size l text)
    (herror : (scan config l).1 ≠ .parseError) (hend : (scan config l).1 ≠ .endOfInput) :
    ∃ token rest, Yields size config token rest (scan config l) ∧
      At size (scan config l).2 rest ∧ rest.length < text.length := by
  obtain ⟨l₁, hskip, hready⟩ := skipBom_ready h.ready h.marked
  have hdrop := (List.dropWhile_suffix (l := text) (IsSpace ·)).length_le
  rw [scan] at herror hend ⊢
  simp only [hskip, if_true] at herror hend ⊢
  cases hok : (skipComments config l₁.skipWhitespace.turns l₁.skipWhitespace).1 with
  | false => simp [hok] at herror
  | true =>
      obtain ⟨rest, hread, hlength⟩ := read_skipComments (read_skipWhitespace hready) _ hok
      simp only [hok, if_true] at herror hend ⊢
      cases rest with
      | nil =>
          rw [scanToken, hread.current] at hend
          exact absurd rfl hend
      | cons c more =>
          obtain ⟨hnull, -⟩ | ⟨token, tail, rest, hsplit, -, hyields⟩ :=
            scanToken_outcome hread herror
          · exact absurd hnull hend
          · have hshorter : rest.length < text.length := by
              rw [List.tail_cons] at hsplit
              rw [hsplit, List.length_cons, List.length_append] at hlength
              omega
            exact ⟨token, rest, hyields, h.shorter hyields.ready hshorter, hshorter⟩

end Lexer

namespace Parser

open Lexer

variable {σ : Type} {sax : Sax σ}

/-! ## Turns -/

/-- The last token is an error or the end of the input, or less than `n` bytes are left. -/
def Within (size : ℕ) (config : LexerConfig) (n : ℕ) (p : Parser) : Prop :=
  (p.lastToken = .parseError ∨ p.lastToken = .endOfInput) ∨
    ∃ token rest, Yields size config token rest (p.lastToken, p.lexer) ∧ At size p.lexer rest ∧
      rest.length < n

/-- A token that is used has left less than `n` bytes. -/
theorem Within.at {n : ℕ} {p : Parser} (h : Within size config n p)
    (herror : p.lastToken ≠ .parseError) (hend : p.lastToken ≠ .endOfInput) :
    ∃ rest, At size p.lexer rest ∧ rest.length < n := by
  obtain (h | h) | ⟨-, rest, -, hat, hlength⟩ := h
  · exact absurd h herror
  · exact absurd h hend
  · exact ⟨rest, hat, hlength⟩

theorem within_getToken {p : Parser} {text : Bytes} (h : At size p.lexer text) :
    Within size config text.length (p.getToken config) := by
  by_cases herror : (scan config p.lexer).1 = .parseError
  · exact .inl (.inl herror)
  by_cases hend : (scan config p.lexer).1 = .endOfInput
  · exact .inl (.inr hend)
  · exact .inr (yields_of_scan h herror hend)

/-- A turn that goes on has less to read than `n` bytes. -/
def Closer (size : ℕ) (config : LexerConfig) (n : ℕ) : Except JsonException (Turn σ) → Prop
  | .ok (.again p _ _ false) => ∃ m < n, Within size config m p
  | .ok (.again p _ _ true) => ∃ rest, At size p.lexer rest ∧ rest.length < n
  | _ => True

theorem Closer.mono {m n : ℕ} (hle : m ≤ n) {t : Except JsonException (Turn σ)}
    (h : Closer size config m t) : Closer size config n t := by
  match t, h with
  | .error _, _ => trivial
  | .ok (.finished _ _ _), _ => trivial
  | .ok (.again _ _ _ false), ⟨k, hk, hwithin⟩ => exact ⟨k, Nat.lt_of_lt_of_le hk hle, hwithin⟩
  | .ok (.again _ _ _ true), ⟨rest, hat, hlength⟩ =>
      exact ⟨rest, hat, Nat.lt_of_lt_of_le hlength hle⟩

theorem closer_reject (n : ℕ) (expected : TokenType) (context : Bytes) (p : Parser) (s : σ) :
    Closer size config n (reject sax expected context p s) := by
  unfold reject
  cases syntaxError sax expected context p s with
  | error ex => trivial
  | ok result => trivial

theorem closer_emit {n : ℕ} {next : σ → Except JsonException (Turn σ)}
    (h : ∀ s, Closer size config n (next s)) (e : SaxEvent) (p : Parser) (s : σ) :
    Closer size config n (emit sax e p s next) := by
  unfold emit
  rcases sax.event e s with ⟨_ | _, s'⟩
  · trivial
  · exact h s'

theorem closer_parseKey {n : ℕ} {p : Parser} (h : Within size config n p) (s : σ)
    (states : List Bool) : Closer size config n (parseKey config sax p s states) := by
  unfold parseKey
  by_cases hstring : p.lastToken = .valueString
  · obtain ⟨rest, hat, hlength⟩ := h.at (by rw [hstring]; decide) (by rw [hstring]; decide)
    rw [if_neg (not_not.mpr hstring)]
    refine closer_emit (fun s => ?_) _ p s
    have hwithin := @within_getToken size config p rest hat
    by_cases hname : (p.getToken config).lastToken = .nameSeparator
    · obtain ⟨rest', hat', hlength'⟩ := hwithin.at (by rw [hname]; decide) (by rw [hname]; decide)
      simp only [hname, ne_eq, not_true_eq_false, if_false]
      exact ⟨rest'.length, hlength'.trans hlength, within_getToken hat'⟩
    · simp only [ne_eq, hname, not_false_eq_true, if_true]
      exact closer_reject ..
  · rw [if_pos hstring]
    exact closer_reject ..

theorem closer_evaluateState {p : Parser} {rest : Bytes} (h : At size p.lexer rest) (s : σ)
    (states : List Bool) :
    Closer size config rest.length (evaluateState config sax p s states) := by
  have hwithin := @within_getToken size config p rest h
  -- a separator or a closing bracket is a token of at least one byte
  have hused (hused : (p.getToken config).lastToken = .valueSeparator ∨
      (p.getToken config).lastToken = .endArray ∨ (p.getToken config).lastToken = .endObject) :
      ∃ rest', At size (p.getToken config).lexer rest' ∧ rest'.length < rest.length := by
    rcases hused with hused | hused | hused <;>
      exact hwithin.at (by rw [hused]; decide) (by rw [hused]; decide)
  match states with
  | [] => trivial
  | true :: states =>
      unfold evaluateState
      dsimp only
      by_cases hcomma : (p.getToken config).lastToken = .valueSeparator
      · obtain ⟨rest', hat', hlength'⟩ := hused (.inl hcomma)
        rw [if_pos hcomma]
        exact ⟨rest'.length, hlength', within_getToken hat'⟩
      · by_cases hend : (p.getToken config).lastToken = .endArray
        · rw [if_neg hcomma, if_pos hend]
          refine closer_emit (fun s => ?_) _ _ s
          exact hused (.inr (.inl hend))
        · rw [if_neg hcomma, if_neg hend]
          exact closer_reject ..
  | false :: states =>
      unfold evaluateState
      dsimp only
      by_cases hcomma : (p.getToken config).lastToken = .valueSeparator
      · obtain ⟨rest', hat', hlength'⟩ := hused (.inl hcomma)
        rw [if_pos hcomma]
        exact (closer_parseKey (within_getToken hat') s _).mono (Nat.le_of_lt hlength')
      · by_cases hend : (p.getToken config).lastToken = .endObject
        · rw [if_neg hcomma, if_pos hend]
          refine closer_emit (fun s => ?_) _ _ s
          exact hused (.inr (.inr hend))
        · rw [if_neg hcomma, if_neg hend]
          exact closer_reject ..

theorem closer_parseValue {n : ℕ} {p : Parser} (h : Within size config n p) (s : σ)
    (states : List Bool) : Closer size config n (parseValue config sax p s states) := by
  have hvalue (e : SaxEvent) (herror : p.lastToken ≠ .parseError)
      (hend : p.lastToken ≠ .endOfInput) :
      Closer size config n (emit sax e p s fun s => evaluateState config sax p s states) := by
    obtain ⟨rest, hat, hlength⟩ := h.at herror hend
    exact closer_emit (fun s => (closer_evaluateState hat s states).mono (Nat.le_of_lt hlength)) ..
  -- behind an opening bracket: it is closed at once, or something is inside
  have hopen (endToken : TokenType) (hnot : endToken ≠ .parseError ∧ endToken ≠ .endOfInput)
      (hstart : p.lastToken ≠ .parseError ∧ p.lastToken ≠ .endOfInput)
      (e : SaxEvent) (next : σ → Except JsonException (Turn σ))
      (hnext : ∀ s, ∀ m < n, Within size config m (p.getToken config) →
        Closer size config n (next s)) (s : σ) :
      Closer size config n
        (if (p.getToken config).lastToken = endToken then
          emit sax e (p.getToken config) s fun s =>
            evaluateState config sax (p.getToken config) s states
        else next s) := by
    obtain ⟨rest, hat, hlength⟩ := h.at hstart.1 hstart.2
    have hwithin := @within_getToken size config p rest hat
    split_ifs with hend
    · obtain ⟨rest', hat', hlength'⟩ :=
        hwithin.at (by rw [hend]; exact hnot.1) (by rw [hend]; exact hnot.2)
      refine closer_emit (fun s => (closer_evaluateState hat' s states).mono ?_) ..
      omega
    · exact hnext s rest.length hlength hwithin
  unfold parseValue
  dsimp only
  split
  case h_1 htoken =>
    refine closer_emit (fun s => ?_) _ p s
    refine hopen .endObject (by decide) (by rw [htoken]; decide) .endObject
      (fun s => parseKey config sax (p.getToken config) s (false :: states))
      (fun s m hm hwithin => ?_) s
    exact (closer_parseKey hwithin s _).mono (Nat.le_of_lt hm)
  case h_2 htoken =>
    refine closer_emit (fun s => ?_) _ p s
    refine hopen .endArray (by decide) (by rw [htoken]; decide) .endArray
      (fun s => .ok (.again (p.getToken config) s (true :: states) false))
      (fun s m hm hwithin => ?_) s
    exact ⟨m, hm, hwithin⟩
  case h_3 htoken =>
    split
    · exact hvalue _ (by rw [htoken]; decide) (by rw [htoken]; decide)
    · cases sax.parseError p.lexer.position.charsReadTotal p.lexer.getTokenString
        (.createOutOfRange 406
          (ascii "number overflow parsing '" ++ p.lexer.getTokenString ++ ascii "'")) s with
      | error ex => trivial
      | ok result => trivial
  -- tokens at which no value begins
  case h_10 => exact closer_reject ..
  case h_11 => exact closer_reject ..
  all_goals
    rename_i htoken
    exact hvalue _ (by rw [htoken]; decide) (by rw [htoken]; decide)

/-! ## The loop -/

/-- How the loop goes on behind a turn. -/
def resume (config : LexerConfig) (sax : Sax σ) (n : ℕ) :
    Except JsonException (Turn σ) → Option (Except JsonException (Bool × Parser × σ))
  | .error ex => some (.error ex)
  | .ok (.finished result p s) => some (.ok (result, p, s))
  | .ok (.again p s states skip) => saxParseLoop config sax n p s states skip

theorem saxParseLoop_succ (n : ℕ) (p : Parser) (s : σ) (states : List Bool) (skip : Bool) :
    saxParseLoop config sax (n + 1) p s states skip =
      resume config sax n (turn config sax p s states skip) := by
  rw [saxParseLoop]
  rcases turn config sax p s states skip with ex | ⟨result, p, s⟩ | ⟨p, s, states, skip⟩ <;> rfl

/-- The loop ends within as many turns as bytes are left. -/
theorem isSome_resume {n m : ℕ} (hm : m ≤ n) {t : Except JsonException (Turn σ)}
    (h : Closer size config m t) : (resume config sax n t).isSome = true := by
  -- on the turns; each `again` goes with fewer bytes, so that the bound on them pays for it
  induction n generalizing m t with
  | zero =>
      obtain rfl := Nat.le_zero.mp hm
      match t, h with
      | .error _, _ => rfl
      | .ok (.finished _ _ _), _ => rfl
      | .ok (.again _ _ _ false), ⟨_, hk, _⟩ => exact absurd hk (Nat.not_lt_zero _)
      | .ok (.again _ _ _ true), ⟨_, _, hlength⟩ => exact absurd hlength (Nat.not_lt_zero _)
  | succ n ih =>
      match t, h with
      | .error _, _ => rfl
      | .ok (.finished _ _ _), _ => rfl
      | .ok (.again p s states false), ⟨k, hk, hwithin⟩ =>
          rw [resume, saxParseLoop_succ]
          exact ih (by omega) (closer_parseValue hwithin s states)
      | .ok (.again p s states true), ⟨rest, hat, hlength⟩ =>
          rw [resume, saxParseLoop_succ]
          exact ih (by omega) (closer_evaluateState hat s states)

/-- More turns do not change a result. -/
theorem resume_mono {n : ℕ} {t : Except JsonException (Turn σ)}
    {result : Except JsonException (Bool × Parser × σ)}
    (h : resume config sax n t = some result) (k : ℕ) :
    resume config sax (n + k) t = some result := by
  induction n generalizing t with
  | zero =>
      match t, h with
      | .error _, h => exact h
      | .ok (.finished _ _ _), h => exact h
      | .ok (.again _ _ _ _), h => cases h
  | succ n ih =>
      match t, h with
      | .error _, h => exact h
      | .ok (.finished _ _ _), h => exact h
      | .ok (.again p s states skip), h =>
          rw [resume, saxParseLoop_succ] at h
          rw [Nat.succ_add, resume, saxParseLoop_succ]
          exact ih h

theorem within_new (config : LexerConfig) (input : Bytes) :
    ∃ n, Within input.length config n (Parser.new config input) ∧
      n ≤ (Parser.new config input).lexer.turns := by
  have hdead (h : (Parser.new config input).lastToken = .parseError ∨
      (Parser.new config input).lastToken = .endOfInput) :
      ∃ n, Within input.length config n (Parser.new config input) ∧
        n ≤ (Parser.new config input).lexer.turns :=
    ⟨0, .inl h, Nat.zero_le _⟩
  rcases @scan_new config input with herror | ⟨bom, body, l, -, -, hat, hscan⟩
  · exact hdead (.inl herror)
  · rcases @within_getToken input.length config ⟨l, .uninitialized⟩ body hat with
      hend | ⟨token, rest, hyields, hat', -⟩
    · have htoken : (Parser.new config input).lastToken =
          (getToken config ⟨l, .uninitialized⟩).lastToken := congrArg Prod.fst hscan
      exact hdead (htoken ▸ hend)
    · have hsame : Parser.new config input = getToken config ⟨l, .uninitialized⟩ := by
        rw [Parser.new, getToken, getToken, hscan]
      rw [hsame]
      -- the first token has been read, and `turns` counts the bytes behind it
      refine ⟨rest.length + 1, .inr ⟨token, rest, hyields, hat', Nat.lt_succ_self _⟩, ?_⟩
      rw [hat'.ready.turns]

/-- The parser comes to an end on every input. -/
theorem saxParseInternal_isSome (config : LexerConfig) (sax : Sax σ) (input : Bytes) (s : σ) :
    (saxParseInternal config sax (Parser.new config input) s).isSome = true := by
  obtain ⟨n, hwithin, hle⟩ := within_new config input
  rw [saxParseInternal, saxParseLoop_succ]
  exact isSome_resume hle (closer_parseValue hwithin s [])

end Parser

/-- `parse` and `accept` return: the loops of the lexer are through before their turns are
used up, in whatever state it is, and so is the loop of the parser. -/
theorem parse_returns (config : LexerConfig) (allowExceptions : Bool) (input : Bytes) :
    Lexer.LoopsEnd config ∧ (parse config allowExceptions input).isSome = true ∧
      (accept config input).isSome = true := by
  refine ⟨Lexer.loopsEnd config, ?_⟩
  have hparse := Parser.saxParseInternal_isSome config (Dom.sax allowExceptions) input Dom.new
  have haccept := Parser.saxParseInternal_isSome config acceptor input ()
  constructor
  · rw [parse, Parser.parse]
    rcases hresult : Parser.saxParseInternal config (Dom.sax allowExceptions)
      (Parser.new config input) Dom.new with _ | ex | ⟨result, p, dom⟩
    · rw [hresult] at hparse
      cases hparse
    · rfl
    · rfl
  · rw [accept, Parser.saxParse]
    rcases hresult : Parser.saxParseInternal config acceptor
      (Parser.new config input) () with _ | ex | ⟨result, p, s⟩
    · rw [hresult] at haccept
      cases haccept
    · rfl
    · rfl

end Structlog.Json
