import Structlog.JsonGrammar

/-!
# The parser with two handlers

What the parser reads does not depend on its handler, if this lets it go on and its
`parse_error` does not: two such handlers are told the same, and the error at which one
stops is the error at which the other stops (`alike_saxParseLoop`).  So a parse that
throws, one that does not and `accept` take the same inputs (`parse_or_refuse`), also if
comments are ignored.
-/

namespace Structlog.Json

open Lib

/-- Two handlers that stay related. -/
structure Sax.Follows {σ τ : Type} (sax : Sax σ) (sax' : Sax τ) (R : σ → τ → Prop) : Prop where
  lawful : sax.Lawful
  lawful' : sax'.Lawful
  event : ∀ e x y, R x y → R (sax.event e x).2 (sax'.event e y).2

namespace Parser

variable {config : LexerConfig} {σ τ : Type} {sax : Sax σ} {sax' : Sax τ} {R : σ → τ → Prop}

/-- The parser ends with `true` in related states, or both handlers are told of one error. -/
inductive Alike (sax : Sax σ) (sax' : Sax τ) (R : σ → τ → Prop) :
    Except JsonException (Bool × Parser × σ) → Except JsonException (Bool × Parser × τ) → Prop
  | accepted (p : Parser) {x : σ} {y : τ} (h : R x y) :
      Alike sax sax' R (.ok (true, p, x)) (.ok (true, p, y))
  | refused (byte : ℕ) (token : Bytes) (ex : JsonException) (p : Parser) {x : σ} {y : τ}
      (h : R x y) :
      Alike sax sax' R ((sax.parseError byte token ex x).map fun (result, x) => (result, p, x))
        ((sax'.parseError byte token ex y).map fun (result, y) => (result, p, y))

/-- The same of a turn. -/
inductive AlikeTurn (sax : Sax σ) (sax' : Sax τ) (R : σ → τ → Prop) :
    Except JsonException (Turn σ) → Except JsonException (Turn τ) → Prop
  | accepted (p : Parser) {x : σ} {y : τ} (h : R x y) :
      AlikeTurn sax sax' R (.ok (.finished true p x)) (.ok (.finished true p y))
  | refused (byte : ℕ) (token : Bytes) (ex : JsonException) (p : Parser) {x : σ} {y : τ}
      (h : R x y) :
      AlikeTurn sax sax' R
        ((sax.parseError byte token ex x).map fun (result, x) => .finished result p x)
        ((sax'.parseError byte token ex y).map fun (result, y) => .finished result p y)
  | again (p : Parser) {x : σ} {y : τ} (states : List Bool) (skip : Bool) (h : R x y) :
      AlikeTurn sax sax' R (.ok (.again p x states skip)) (.ok (.again p y states skip))

theorem alike_reject (expected : TokenType) (context : Bytes) (p : Parser) {x : σ} {y : τ}
    (h : R x y) :
    AlikeTurn sax sax' R (reject sax expected context p x) (reject sax' expected context p y) :=
  .refused _ _ _ p h

theorem alike_emit (hsax : sax.Follows sax' R) (e : SaxEvent) (p : Parser) {x : σ} {y : τ}
    (h : R x y) {next : σ → Except JsonException (Turn σ)}
    {next' : τ → Except JsonException (Turn τ)}
    (hnext : ∀ x y, R x y → AlikeTurn sax sax' R (next x) (next' y)) :
    AlikeTurn sax sax' R (emit sax e p x next) (emit sax' e p y next') := by
  rw [emit_lawful hsax.lawful, emit_lawful hsax.lawful']
  exact hnext _ _ (hsax.event e x y h)

theorem alike_parseKey (hsax : sax.Follows sax' R) (p : Parser) {x : σ} {y : τ} (h : R x y)
    (states : List Bool) :
    AlikeTurn sax sax' R (parseKey config sax p x states) (parseKey config sax' p y states) := by
  rw [parseKey, parseKey]
  split_ifs
  · exact alike_reject _ _ p h
  · refine alike_emit hsax _ p h fun x y h => ?_
    dsimp only
    split_ifs
    · exact alike_reject _ _ _ h
    · exact .again _ _ _ h

theorem alike_evaluateState (hsax : sax.Follows sax' R) (p : Parser) {x : σ} {y : τ} (h : R x y)
    (states : List Bool) : AlikeTurn sax sax' R (evaluateState config sax p x states)
      (evaluateState config sax' p y states) := by
  match states with
  | [] => exact .accepted p h
  | true :: states =>
      rw [evaluateState, evaluateState]
      split_ifs
      · exact .again _ _ _ h
      · exact alike_emit hsax _ _ h fun x y h => .again _ _ _ h
      · exact alike_reject _ _ _ h
  | false :: states =>
      rw [evaluateState, evaluateState]
      split_ifs
      · exact alike_parseKey hsax _ h _
      · exact alike_emit hsax _ _ h fun x y h => .again _ _ _ h
      · exact alike_reject _ _ _ h

theorem alike_parseValue (hsax : sax.Follows sax' R) (p : Parser) {x : σ} {y : τ} (h : R x y)
    (states : List Bool) : AlikeTurn sax sax' R (parseValue config sax p x states)
      (parseValue config sax' p y states) := by
  have hvalue (e : SaxEvent) : AlikeTurn sax sax' R
      (emit sax e p x fun x => evaluateState config sax p x states)
      (emit sax' e p y fun y => evaluateState config sax' p y states) :=
    alike_emit hsax e p h fun x y h => alike_evaluateState hsax p h states
  rw [parseValue, parseValue]
  dsimp only
  split
  · refine alike_emit hsax _ p h fun x y h => ?_
    split_ifs
    · exact alike_emit hsax _ _ h fun x y h => alike_evaluateState hsax _ h states
    · exact alike_parseKey hsax _ h _
  · refine alike_emit hsax _ p h fun x y h => ?_
    split_ifs
    · exact alike_emit hsax _ _ h fun x y h => alike_evaluateState hsax _ h states
    · exact .again _ _ _ h
  · split
    · exact hvalue _
    · exact .refused _ _ _ p h
  · exact hvalue _
  · exact hvalue _
  · exact hvalue _
  · exact hvalue _
  · exact hvalue _
  · exact hvalue _
  · exact alike_reject _ _ p h
  · exact alike_reject _ _ p h

theorem resume_refused (n : ℕ) (answer : Except JsonException (Bool × σ)) (p : Parser) :
    resume config sax n (answer.map fun (result, x) => .finished result p x) =
      some (answer.map fun (result, x) => (result, p, x)) := by
  cases answer <;> rfl

/-- A whole run with two handlers. -/
theorem alike_saxParseLoop (hsax : sax.Follows sax' R) (n : ℕ) (p : Parser) {x : σ} {y : τ}
    (h : R x y) (states : List Bool) (skip : Bool) :
    Option.Rel (Alike sax sax' R) (saxParseLoop config sax n p x states skip)
      (saxParseLoop config sax' n p y states skip) := by
  induction n generalizing p x y states skip with
  | zero => exact .none
  | succ n ih =>
      -- on the turns: one turn with both handlers, and then the induction hypothesis at its end
      have hturn : AlikeTurn sax sax' R (turn config sax p x states skip)
          (turn config sax' p y states skip) := by
        rw [turn, turn]
        split_ifs
        · exact alike_evaluateState hsax p h states
        · exact alike_parseValue hsax p h states
      rw [saxParseLoop_succ, saxParseLoop_succ]
      generalize turn config sax p x states skip = t at hturn
      generalize turn config sax' p y states skip = t' at hturn
      cases hturn with
      | accepted q h => exact .some (.accepted q h)
      | again q states skip h => exact ih q h states skip
      | refused byte token ex q h =>
          rw [resume_refused, resume_refused]
          exact .some (.refused byte token ex q h)

end Parser

/-! ## The three ways to parse -/

theorem acceptor_lawful : acceptor.Lawful :=
  ⟨fun _ _ => rfl, fun _ _ _ _ _ h => by cases h⟩

namespace Dom

theorem sax_lawful (allowExceptions : Bool) : (sax allowExceptions).Lawful := by
  refine ⟨fun _ _ => rfl, fun _ _ _ _ _ h => ?_⟩
  cases allowExceptions <;> cases h

/-- No error was told, and the value is not that of an error. -/
structure Sane (dom : Dom) : Prop where
  notErrored : dom.errored = false
  root : dom.root ≠ .discarded

theorem modifyAt_ne_discarded {f : Json → Json} (hf : ∀ j, j ≠ .discarded → f j ≠ .discarded)
    (path : Path) {j : Json} (hj : j ≠ .discarded) : modifyAt path f j ≠ .discarded := by
  cases path with
  | nil => exact hf j hj
  | cons step path => cases step <;> cases j <;> simp_all [modifyAt]

theorem Sane.handleValue {dom : Dom} (h : dom.Sane) {v : Json} (hv : v ≠ .discarded) :
    (dom.handleValue v).2.Sane := by
  unfold Dom.handleValue
  split
  · exact ⟨h.notErrored, hv⟩
  · split
    · exact ⟨h.notErrored, modifyAt_ne_discarded (fun _ _ => by simp) _ h.root⟩
    · exact ⟨h.notErrored, modifyAt_ne_discarded (fun _ _ => hv) _ h.root⟩

theorem Sane.handle {dom : Dom} (h : dom.Sane) (e : SaxEvent) : (dom.handle e).Sane := by
  cases e with
  | key s =>
      refine ⟨h.notErrored, modifyAt_ne_discarded (fun j hj => ?_) _ h.root⟩
      cases j <;> simp_all [withMember]
  | startObject =>
      have hstart := @Sane.handleValue dom h (.object []) (by simp)
      exact ⟨hstart.notErrored, hstart.root⟩
  | startArray =>
      have hstart := @Sane.handleValue dom h (.array []) (by simp)
      exact ⟨hstart.notErrored, hstart.root⟩
  | endObject | endArray => exact ⟨h.notErrored, h.root⟩
  | _ => exact h.handleValue (by simp)

theorem sax_follows (allowExceptions allowExceptions' : Bool) :
    (sax allowExceptions).Follows (sax allowExceptions') fun dom dom' => dom = dom' ∧ dom.Sane where
  lawful := sax_lawful allowExceptions
  lawful' := sax_lawful allowExceptions'
  event e _ _ h := ⟨congrArg (handle e) h.1, h.2.handle e⟩

theorem sax_follows_acceptor (allowExceptions : Bool) :
    (sax allowExceptions).Follows acceptor fun dom _ => dom.Sane where
  lawful := sax_lawful allowExceptions
  lawful' := acceptor_lawful
  event e _ _ h := h.handle e

theorem sane_new : new.Sane := ⟨rfl, by simp [new]⟩

end Dom

/-! ### Ends -/

namespace Parser

variable {config : LexerConfig} {p : Parser}

theorem expectEnd_of_end {σ : Type} (sax : Sax σ)
    (hend : (p.getToken config).lastToken = .endOfInput) (result : Bool) (x : σ) :
    p.expectEnd config sax result x = .ok (result, x) := by
  rw [expectEnd]
  exact if_neg (not_not.mpr hend)

theorem expectEnd_of_ne {σ : Type} (sax : Sax σ)
    (hend : (p.getToken config).lastToken ≠ .endOfInput) (result : Bool) (x : σ) :
    p.expectEnd config sax result x =
      syntaxError sax .endOfInput (ascii "value") (p.getToken config) x := by
  rw [expectEnd]
  exact if_pos hend

end Parser

/-- Where the first handler throws. -/
theorem Parser.Alike.throwing {τ : Type} {sax' : Sax τ} {R : Dom → τ → Prop}
    {r : Except JsonException (Bool × Parser × Dom)} {r' : Except JsonException (Bool × Parser × τ)}
    (h : Alike (Dom.sax true) sax' R r r') :
    (∃ p x y, r = .ok (true, p, x) ∧ r' = .ok (true, p, y) ∧ R x y) ∨
    ∃ byte token ex p y, r = .error ex ∧
      r' = (sax'.parseError byte token ex y).map fun (result, y) => (result, p, y) := by
  cases h with
  | accepted p h => exact .inl ⟨p, _, _, rfl, rfl, h⟩
  | refused byte token ex p h => exact .inr ⟨byte, token, ex, p, _, rfl, rfl⟩

/-- What the parser ends with under a handler, beside the one that throws. -/
theorem Parser.saxParseInternal_throwing {config : LexerConfig} {input : Bytes} {τ : Type}
    {sax' : Sax τ} {R : Dom → τ → Prop} (hsax : (Dom.sax true).Follows sax' R) {y : τ}
    (h : R Dom.new y) {r : Except JsonException (Bool × Parser × Dom)}
    (hr : saxParseInternal config (Dom.sax true) (new config input) Dom.new = some r) :
    ∃ r', saxParseInternal config sax' (new config input) y = some r' ∧
      Alike (Dom.sax true) sax' R r r' := by
  have hrel := @alike_saxParseLoop config _ _ _ _ _ hsax ((new config input).lexer.turns + 1)
    (new config input) Dom.new y h [] false
  rw [saxParseInternal] at hr ⊢
  rw [hr] at hrel
  generalize saxParseLoop config sax' _ _ _ _ _ = result at hrel ⊢
  cases hrel with
  | some halike => exact ⟨_, rfl, halike⟩

/-- An input is accepted in all three ways to parse it, or in none: then one throws, one
gives the discarded value and `accept` is false. -/
theorem parse_or_refuse (config : LexerConfig) (input : Bytes) :
    (∃ j, j ≠ .discarded ∧ parse config true input = some (.ok j) ∧
      parse config false input = some (.ok j) ∧ accept config input = some (.ok true)) ∨
    ∃ ex, parse config true input = some (.error ex) ∧
      parse config false input = some (.ok .discarded) ∧
      accept config input = some (.ok false) := by
  obtain ⟨r, hr⟩ := Option.isSome_iff_exists.mp
    (Parser.saxParseInternal_isSome config (Dom.sax true) input Dom.new)
  obtain ⟨r₂, hr₂, hquiet⟩ :=
    Parser.saxParseInternal_throwing (Dom.sax_follows true false) ⟨rfl, Dom.sane_new⟩ hr
  obtain ⟨r₃, hr₃, haccept⟩ :=
    Parser.saxParseInternal_throwing (y := ()) (Dom.sax_follows_acceptor true) Dom.sane_new hr
  simp only [parse, accept, Parser.parse, Parser.saxParse, hr, hr₂, hr₃]
  rcases hquiet.throwing with ⟨p, x, _, rfl, rfl, rfl, hsane⟩ | ⟨_, _, ex, p, dom, rfl, rfl⟩
  · obtain ⟨_, _, _, hsame, rfl, -⟩ | ⟨_, _, _, _, _, hsame, -⟩ := haccept.throwing
    · cases hsame
      -- all three have read a value; what is left decides
      by_cases hend : (p.getToken config).lastToken = .endOfInput
      · refine .inl ⟨x.root, hsane.root, ?_⟩
        simp only [Parser.expectEnd_of_end _ hend, Except.map, hsane.notErrored, if_true]
        exact ⟨rfl, rfl, rfl⟩
      · right
        simp only [Parser.expectEnd_of_ne _ hend, if_true]
        exact ⟨_, rfl, rfl, rfl⟩
    · cases hsame
  · obtain ⟨_, _, _, hsame, -⟩ | ⟨_, _, _, _, _, hsame, rfl⟩ := haccept.throwing
    · cases hsame
    · refine .inr ⟨ex, rfl, ?_, rfl⟩
      -- without exceptions the end of the input is looked for even now
      by_cases hend : (p.getToken config).lastToken = .endOfInput
      · simp only [Dom.sax, Except.map, Bool.false_eq_true, if_false]
        rw [Parser.expectEnd_of_end _ hend]
        rfl
      · simp only [Dom.sax, Except.map, Bool.false_eq_true, if_false]
        rw [Parser.expectEnd_of_ne _ hend]
        rfl

end Structlog.Json
