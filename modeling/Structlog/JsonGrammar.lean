import Structlog.JsonTurns

/-!
# Every tree is read

The loop with its stack against the grammar with its trees.  At the tokens of a tree
whose numbers are finite, the loop tells a handler the events of the tree, in order, and
goes on behind it (`reads_tree`).

A number has no end of its own: what follows must not be able to go on with it.  Inside
an array or an object that is so, since a comma or a closing bracket follows.
-/

namespace Structlog.Json

open Lib Lib.Utf8 Lib.JsonSyntax Lexer

/-! ## Events of a tree -/

mutual

/-- What a handler is told of a tree; `none` if a number of it is not finite. -/
def treeEvents (config : LexerConfig) : Tree → Option (List SaxEvent)
  | .null => some [.null]
  | .boolean b => some [.boolean b]
  | .number text => (numberEvent config text).map fun e => [e]
  | .string s => some [.string s]
  | .array elements => do return .startArray :: ((← elementsEvents config elements) ++ [.endArray])
  | .object members => do return .startObject :: ((← membersEvents config members) ++ [.endObject])

def elementsEvents (config : LexerConfig) : List Tree → Option (List SaxEvent)
  | [] => some []
  | element :: rest => do return (← treeEvents config element) ++ (← elementsEvents config rest)

def membersEvents (config : LexerConfig) : List (Bytes × Tree) → Option (List SaxEvent)
  | [] => some []
  | (key, value) :: rest => do
      return .key key :: ((← treeEvents config value) ++ (← membersEvents config rest))

end

/-- A handler that lets the parser go on, and whose `parse_error` does not. -/
structure Sax.Lawful {σ : Type} (sax : Sax σ) : Prop where
  accepts : ∀ e s, (sax.event e s).1 = true
  refuses : ∀ byte token ex s s', sax.parseError byte token ex s ≠ .ok (true, s')

/-- The state of a handler after some events. -/
def Sax.run {σ : Type} (sax : Sax σ) (events : List SaxEvent) (s : σ) : σ :=
  events.foldl (fun s e => (sax.event e s).2) s

@[simp] theorem Sax.run_nil {σ : Type} (sax : Sax σ) (s : σ) : sax.run [] s = s := rfl

@[simp] theorem Sax.run_cons {σ : Type} (sax : Sax σ) (e : SaxEvent) (events : List SaxEvent)
    (s : σ) : sax.run (e :: events) s = sax.run events (sax.event e s).2 := rfl

@[simp] theorem Sax.run_append {σ : Type} (sax : Sax σ) (first second : List SaxEvent) (s : σ) :
    sax.run (first ++ second) s = sax.run second (sax.run first s) := List.foldl_append

namespace Parser

variable {size : ℕ} {config : LexerConfig} {σ : Type} {sax : Sax σ}

/-! ## One token -/

/-- The last token is `token`, and `rest` is left. -/
structure Holds (size : ℕ) (config : LexerConfig) (token : Token) (rest : Bytes) (p : Parser) :
    Prop where
  yields : Yields size config token rest (p.lastToken, p.lexer)
  left : At size p.lexer rest

theorem holds_getToken {p : Parser} {token : Token} {tokens : List Token} {s after : Bytes}
    (hspells : Spells (token :: tokens) s) (h : At size p.lexer (s ++ after))
    (hnumber : ∀ text, token = .number text → ∀ t, Spells tokens t → Delimited (t ++ after)) :
    ∃ t, Spells tokens t ∧ Holds size config token (t ++ after) (p.getToken config) := by
  cases hspells with
  | @cons _ spaces spelled rest _ hspaces hspelling hrest =>
      rw [List.append_assoc, List.append_assoc] at h
      have hyields := @scan_of_spelling size config token spaces spelled (rest ++ after) hspaces
        hspelling p.lexer h fun text htext => hnumber text htext rest hrest
      exact ⟨rest, hrest, hyields, hyields.at h hspelling⟩

theorem holds_of_getToken {p : Parser} {text : Bytes} (h : At size p.lexer text)
    (hcomments : config.ignoreComments = false)
    (herror : (p.getToken config).lastToken ≠ .parseError)
    (hend : (p.getToken config).lastToken ≠ .endOfInput) :
    ∃ token s rest, text = s ++ rest ∧ (∀ tokens t, Spells tokens t →
      Spells (token :: tokens) (s ++ t)) ∧ Holds size config token rest (p.getToken config) := by
  obtain ⟨token, spaces, spelled, rest, rfl, hspaces, hspelling, hyields⟩ :=
    @spelling_of_scan size config text p.lexer h hcomments herror hend
  refine ⟨token, spaces ++ spelled, rest, by simp, fun tokens t ht => ?_, hyields,
    hyields.at h hspelling⟩
  rw [List.append_assoc]
  exact .cons hspaces hspelling ht

/-! ## One turn -/

theorem emit_lawful (hsax : sax.Lawful) (e : SaxEvent) (p : Parser) (s : σ)
    (next : σ → Except JsonException (Turn σ)) :
    emit sax e p s next = next (sax.event e s).2 := by
  have haccepts := hsax.accepts e s
  unfold emit
  rcases hevent : sax.event e s with ⟨accepted, s'⟩
  rw [hevent] at haccepts
  obtain rfl : accepted = true := haccepts
  rfl

/-- A value without parts takes one event. -/
theorem parseValue_of_event (hsax : sax.Lawful) {p : Parser} {e : SaxEvent}
    (he : valueEvent (p.lastToken, p.lexer) = some e) (s : σ) (states : List Bool) :
    parseValue config sax p s states = evaluateState config sax p (sax.event e s).2 states := by
  rw [parseValue]
  simp only [emit_lawful hsax]
  simp only [valueEvent] at he
  split at he
  all_goals try cases he
  all_goals
    rename_i htoken
    simp only [htoken]
  obtain ⟨x, hx, rfl⟩ := Option.map_eq_some_iff.mp he
  simp only [hx]

/-- A key and its colon. -/
theorem parseKey_of_spells (hsax : sax.Lawful) {p : Parser} {key : Bytes} {tokens : List Token}
    {s after : Bytes} (hspells : Spells (.string key :: .nameSeparator :: tokens) s)
    (h : At size p.lexer (s ++ after)) (x : σ) (states : List Bool) :
    ∃ (p' : Parser) (t : Bytes), Spells tokens t ∧ At size p'.lexer (t ++ after) ∧
      parseKey config sax (p.getToken config) x states =
        .ok (.again (p'.getToken config) (sax.event (.key key) x).2 states false) := by
  obtain ⟨t₁, hspells₁, hkey⟩ := @holds_getToken size config p _ _ s after hspells h (by simp)
  obtain ⟨t₂, hspells₂, hcolon⟩ :=
    @holds_getToken size config (p.getToken config) _ _ t₁ after hspells₁ hkey.left (by simp)
  have hstring : (p.getToken config).lastToken = .valueString := hkey.yields.kind
  have hname : ((p.getToken config).getToken config).lastToken = .nameSeparator :=
    hcolon.yields.kind
  have hbuffer : (p.getToken config).lexer.tokenBuffer = key := by
    have hevent := hkey.yields.event
    simp only [valueEvent, hstring, tokenEvent, Option.some.injEq, SaxEvent.string.injEq] at hevent
    exact hevent
  refine ⟨(p.getToken config).getToken config, t₂, hspells₂, hcolon.left, ?_⟩
  rw [parseKey, if_neg (not_not.mpr hstring), emit_lawful hsax, hbuffer]
  simp only [hname, ne_eq, not_true_eq_false, if_false]

/-! ## Completeness -/

/-- At a value with tokens `tokens` the loop tells its events and goes on behind it. -/
def Reads (size : ℕ) (config : LexerConfig) (sax : Sax σ) (tokens : List Token)
    (events : List SaxEvent) : Prop :=
  ∀ (p : Parser) (s after : Bytes) (x : σ) (states : List Bool), Spells tokens s →
    Delimited after → At size p.lexer (s ++ after) →
    (p.getToken config).lastToken ≠ .endArray ∧
    ∃ (k : ℕ) (p' : Parser), At size p'.lexer after ∧ ∀ n,
      saxParseLoop config sax (n + k) (p.getToken config) x states false =
        resume config sax n (evaluateState config sax p' (sax.run events x) states)

/-- Behind an element or a member with `tokens` to come, the loop tells `events` and goes on
behind the array or the object. -/
def Closes (size : ℕ) (config : LexerConfig) (sax : Sax σ) (array : Bool) (tokens : List Token)
    (events : List SaxEvent) : Prop :=
  ∀ (p : Parser) (s after : Bytes) (x : σ) (states : List Bool), Spells tokens s →
    At size p.lexer (s ++ after) →
    ∃ (k : ℕ) (p' : Parser), At size p'.lexer after ∧ ∀ n,
      resume config sax (n + k) (evaluateState config sax p x (array :: states)) =
        resume config sax n (evaluateState config sax p' (sax.run events x) states)

theorem reads_scalar (hsax : sax.Lawful) {token : Token} {e : SaxEvent}
    (he : tokenEvent config token = some e) : Reads size config sax [token] [e] := by
  intro p s after x states hspells hafter hat
  obtain ⟨t, ht, hholds⟩ := @holds_getToken size config p token [] s after hspells hat
    (fun _ _ t ht => by cases ht; exact hafter)
  cases ht
  have hevent := hholds.yields.event.trans he
  refine ⟨fun hend => ?_, 1, p.getToken config, hholds.left, fun n => ?_⟩
  · rw [hend] at hevent
    cases hevent
  · rw [saxParseLoop_succ]
    exact congrArg _ (parseValue_of_event hsax hevent x states)

theorem closes_endArray (hsax : sax.Lawful) :
    Closes size config sax true [.endArray] [.endArray] := by
  intro p s after x states hspells hat
  obtain ⟨t, ht, hholds⟩ := @holds_getToken size config p _ [] s after hspells hat (by simp)
  cases ht
  have hend : (p.getToken config).lastToken = .endArray := hholds.yields.kind
  refine ⟨1, p.getToken config, hholds.left, fun n => ?_⟩
  rw [evaluateState]
  simp only [hend, reduceCtorEq, if_false, if_true, emit_lawful hsax]
  rw [resume, saxParseLoop_succ]
  rfl

theorem closes_endObject (hsax : sax.Lawful) :
    Closes size config sax false [.endObject] [.endObject] := by
  intro p s after x states hspells hat
  obtain ⟨t, ht, hholds⟩ := @holds_getToken size config p _ [] s after hspells hat (by simp)
  cases ht
  have hend : (p.getToken config).lastToken = .endObject := hholds.yields.kind
  refine ⟨1, p.getToken config, hholds.left, fun n => ?_⟩
  rw [evaluateState]
  simp only [hend, reduceCtorEq, if_false, if_true, emit_lawful hsax]
  rw [resume, saxParseLoop_succ]
  rfl

/-- Tokens that are spelled one list after the other. -/
theorem spells_append_iff {first second : List Token} {s : Bytes} :
    Spells (first ++ second) s ↔ ∃ s₁ s₂, s = s₁ ++ s₂ ∧ Spells first s₁ ∧ Spells second s₂ := by
  constructor
  · intro h
    induction first generalizing s with
    | nil => exact ⟨[], s, rfl, .nil, h⟩
    | cons token first ih =>
        cases h with
        | cons hspaces hspelling hrest =>
            obtain ⟨s₁, s₂, rfl, h₁, h₂⟩ := ih hrest
            exact ⟨_, s₂, by simp, .cons hspaces hspelling h₁, h₂⟩
  · rintro ⟨s₁, s₂, rfl, h₁, h₂⟩
    exact h₁.append h₂

theorem moreElements_cons (rest : List Tree) :
    ∃ token tokens, moreElements rest = token :: tokens ∧
      (token = .endArray ∨ token = .endObject ∨ token = .valueSeparator) := by
  cases rest with
  | nil => exact ⟨_, _, rfl, .inl rfl⟩
  | cons element rest => exact ⟨_, _, rfl, .inr (.inr rfl)⟩

theorem moreMembers_cons (rest : List (Bytes × Tree)) :
    ∃ token tokens, moreMembers rest = token :: tokens ∧
      (token = .endArray ∨ token = .endObject ∨ token = .valueSeparator) := by
  cases rest with
  | nil => exact ⟨_, _, rfl, .inr (.inl rfl)⟩
  | cons member rest => exact ⟨_, _, rfl, .inr (.inr rfl)⟩

/-- An element, and what comes behind it. -/
theorem reads_then_closes {array : Bool} {first second : List Token} {es fs : List SaxEvent}
    (hfirst : Reads size config sax first es) (hsecond : Closes size config sax array second fs)
    (hclosing : ∃ token tokens, second = token :: tokens ∧
      (token = .endArray ∨ token = .endObject ∨ token = .valueSeparator))
    {p : Parser} {s after : Bytes} (hspells : Spells (first ++ second) s)
    (hat : At size p.lexer (s ++ after)) (x : σ) (states : List Bool) :
    (p.getToken config).lastToken ≠ .endArray ∧
    ∃ (k : ℕ) (p' : Parser), At size p'.lexer after ∧ ∀ n,
      saxParseLoop config sax (n + k) (p.getToken config) x (array :: states) false =
        resume config sax n (evaluateState config sax p' (sax.run (es ++ fs) x) states) := by
  obtain ⟨s₁, s₂, rfl, h₁, h₂⟩ := spells_append_iff.mp hspells
  obtain ⟨token, tokens, rfl, htoken⟩ := hclosing
  rw [List.append_assoc] at hat
  obtain ⟨hne, k₁, p₁, hat₁, hloop₁⟩ :=
    hfirst p s₁ (s₂ ++ after) x (array :: states) h₁ (h₂.delimited htoken after) hat
  obtain ⟨k₂, p₂, hat₂, hloop₂⟩ := hsecond p₁ s₂ after (sax.run es x) states h₂ hat₁
  refine ⟨hne, k₂ + k₁, p₂, hat₂, fun n => ?_⟩
  -- first the turns of the element, then those of what closes
  rw [← Nat.add_assoc, hloop₁, hloop₂, Sax.run_append]

theorem reads_emptyArray (hsax : sax.Lawful) :
    Reads size config sax [.beginArray, .endArray] [.startArray, .endArray] := by
  intro p s after x states hspells hafter hat
  obtain ⟨t₁, h₁, hopen⟩ := @holds_getToken size config p _ _ s after hspells hat (by simp)
  obtain ⟨t₂, h₂, hclose⟩ :=
    @holds_getToken size config (p.getToken config) _ [] t₁ after h₁ hopen.left (by simp)
  cases h₂
  have hbegin : (p.getToken config).lastToken = .beginArray := hopen.yields.kind
  have hend : ((p.getToken config).getToken config).lastToken = .endArray := hclose.yields.kind
  refine ⟨by rw [hbegin]; decide, 1, _, hclose.left, fun n => ?_⟩
  rw [saxParseLoop_succ]
  refine congrArg _ ?_
  simp only [turn, Bool.false_eq_true, if_false, parseValue, hbegin, emit_lawful hsax, hend,
    if_true]
  rfl

theorem reads_array (hsax : sax.Lawful) {first second : List Token} {es fs : List SaxEvent}
    (hfirst : Reads size config sax first es) (hsecond : Closes size config sax true second fs)
    (hclosing : ∃ token tokens, second = token :: tokens ∧
      (token = .endArray ∨ token = .endObject ∨ token = .valueSeparator)) :
    Reads size config sax (.beginArray :: (first ++ second)) (.startArray :: (es ++ fs)) := by
  intro p s after x states hspells hafter hat
  obtain ⟨t₁, h₁, hopen⟩ := @holds_getToken size config p _ _ s after hspells hat (by simp)
  have hbegin : (p.getToken config).lastToken = .beginArray := hopen.yields.kind
  obtain ⟨hne, k, p', hat', hloop⟩ :=
    reads_then_closes hfirst hsecond hclosing h₁ hopen.left (sax.event .startArray x).2 states
  refine ⟨by rw [hbegin]; decide, k + 1, p', hat', fun n => ?_⟩
  -- the turn that reads the bracket leaves the first element to the next one
  have hturn : turn config sax (p.getToken config) x states false =
      .ok (.again ((p.getToken config).getToken config) (sax.event .startArray x).2
        (true :: states) false) := by
    simp only [turn, Bool.false_eq_true, if_false, parseValue, hbegin, emit_lawful hsax, if_neg hne]
  rw [← Nat.add_assoc, saxParseLoop_succ, hturn]
  exact hloop n

theorem reads_emptyObject (hsax : sax.Lawful) :
    Reads size config sax [.beginObject, .endObject] [.startObject, .endObject] := by
  intro p s after x states hspells hafter hat
  obtain ⟨t₁, h₁, hopen⟩ := @holds_getToken size config p _ _ s after hspells hat (by simp)
  obtain ⟨t₂, h₂, hclose⟩ :=
    @holds_getToken size config (p.getToken config) _ [] t₁ after h₁ hopen.left (by simp)
  cases h₂
  have hbegin : (p.getToken config).lastToken = .beginObject := hopen.yields.kind
  have hend : ((p.getToken config).getToken config).lastToken = .endObject := hclose.yields.kind
  refine ⟨by rw [hbegin]; decide, 1, _, hclose.left, fun n => ?_⟩
  rw [saxParseLoop_succ]
  refine congrArg _ ?_
  simp only [turn, Bool.false_eq_true, if_false, parseValue, hbegin, emit_lawful hsax, hend,
    if_true]
  rfl

theorem reads_object (hsax : sax.Lawful) (key : Bytes) {first second : List Token}
    {es fs : List SaxEvent} (hfirst : Reads size config sax first es)
    (hsecond : Closes size config sax false second fs)
    (hclosing : ∃ token tokens, second = token :: tokens ∧
      (token = .endArray ∨ token = .endObject ∨ token = .valueSeparator)) :
    Reads size config sax (.beginObject :: .string key :: .nameSeparator :: (first ++ second))
      (.startObject :: .key key :: (es ++ fs)) := by
  intro p s after x states hspells hafter hat
  obtain ⟨t₁, h₁, hopen⟩ := @holds_getToken size config p _ _ s after hspells hat (by simp)
  have hbegin : (p.getToken config).lastToken = .beginObject := hopen.yields.kind
  obtain ⟨_, -, hkey⟩ :=
    @holds_getToken size config (p.getToken config) _ _ t₁ after h₁ hopen.left (by simp)
  have hstring : ((p.getToken config).getToken config).lastToken = .valueString :=
    hkey.yields.kind
  obtain ⟨p₁, t₂, h₂, hat₂, hparse⟩ :=
    @parseKey_of_spells size config σ sax hsax (p.getToken config) key _ t₁ after h₁ hopen.left
      (sax.event .startObject x).2 (false :: states)
  obtain ⟨-, k, p', hat', hloop⟩ := reads_then_closes hfirst hsecond hclosing h₂ hat₂
    (sax.event (.key key) (sax.event .startObject x).2).2 states
  refine ⟨by rw [hbegin]; decide, k + 1, p', hat', fun n => ?_⟩
  -- the turn that reads the brace reads the first key and its separator as well
  have hturn : turn config sax (p.getToken config) x states false =
      .ok (.again (p₁.getToken config) (sax.event (.key key) (sax.event .startObject x).2).2
        (false :: states) false) := by
    simp only [turn, Bool.false_eq_true, if_false, parseValue, hbegin, emit_lawful hsax, hparse]
    rw [if_neg (by rw [hstring]; decide)]
  rw [← Nat.add_assoc, saxParseLoop_succ, hturn]
  exact hloop n

theorem closes_element {first second : List Token} {es fs : List SaxEvent}
    (hfirst : Reads size config sax first es) (hsecond : Closes size config sax true second fs)
    (hclosing : ∃ token tokens, second = token :: tokens ∧
      (token = .endArray ∨ token = .endObject ∨ token = .valueSeparator)) :
    Closes size config sax true (.valueSeparator :: (first ++ second)) (es ++ fs) := by
  intro p s after x states hspells hat
  obtain ⟨t₁, h₁, hcomma⟩ := @holds_getToken size config p _ _ s after hspells hat (by simp)
  have htoken : (p.getToken config).lastToken = .valueSeparator := hcomma.yields.kind
  obtain ⟨-, k, p', hat', hloop⟩ :=
    reads_then_closes hfirst hsecond hclosing h₁ hcomma.left x states
  refine ⟨k, p', hat', fun n => ?_⟩
  rw [evaluateState]
  simp only [htoken, if_true]
  exact hloop n

theorem closes_member (hsax : sax.Lawful) (key : Bytes) {first second : List Token}
    {es fs : List SaxEvent} (hfirst : Reads size config sax first es)
    (hsecond : Closes size config sax false second fs)
    (hclosing : ∃ token tokens, second = token :: tokens ∧
      (token = .endArray ∨ token = .endObject ∨ token = .valueSeparator)) :
    Closes size config sax false
      (.valueSeparator :: .string key :: .nameSeparator :: (first ++ second))
      (.key key :: (es ++ fs)) := by
  intro p s after x states hspells hat
  obtain ⟨t₁, h₁, hcomma⟩ := @holds_getToken size config p _ _ s after hspells hat (by simp)
  have htoken : (p.getToken config).lastToken = .valueSeparator := hcomma.yields.kind
  obtain ⟨p₁, t₂, h₂, hat₂, hparse⟩ :=
    @parseKey_of_spells size config σ sax hsax (p.getToken config) key _ t₁ after h₁ hcomma.left x
      (false :: states)
  obtain ⟨-, k, p', hat', hloop⟩ := reads_then_closes hfirst hsecond hclosing h₂ hat₂
    (sax.event (.key key) x).2 states
  refine ⟨k, p', hat', fun n => ?_⟩
  rw [evaluateState]
  simp only [htoken, if_true, hparse]
  exact hloop n

mutual

/-- The loop reads every tree. -/
theorem reads_tree (hsax : sax.Lawful) :
    (t : Tree) → {es : List SaxEvent} → treeEvents config t = some es →
      Reads size config sax t.tokens es
  | .null, es, h => by
      obtain rfl := Option.some.inj h
      exact reads_scalar hsax rfl
  | .boolean b, es, h => by
      obtain rfl := Option.some.inj h
      exact reads_scalar hsax rfl
  | .number text, es, h => by
      obtain ⟨e, he, rfl⟩ := Option.map_eq_some_iff.mp h
      exact reads_scalar hsax he
  | .string s, es, h => by
      obtain rfl := Option.some.inj h
      exact reads_scalar hsax rfl
  | .array [], es, h => by
      obtain rfl := Option.some.inj h
      exact reads_emptyArray hsax
  | .array (element :: rest), es, h => by
      obtain ⟨first, hfirst, second, hsecond, rfl⟩ :
          ∃ first, treeEvents config element = some first ∧
          ∃ second, elementsEvents config rest = some second ∧
            .startArray :: (first ++ second ++ [.endArray]) = es := by
        simpa [treeEvents, elementsEvents, Option.bind_eq_some_iff] using h
      rw [List.append_assoc]
      exact reads_array hsax (reads_tree hsax element hfirst) (closes_elements hsax rest hsecond)
        (moreElements_cons rest)
  | .object [], es, h => by
      obtain rfl := Option.some.inj h
      exact reads_emptyObject hsax
  | .object ((key, value) :: rest), es, h => by
      obtain ⟨first, hfirst, second, hsecond, rfl⟩ : ∃ first, treeEvents config value = some first ∧
          ∃ second, membersEvents config rest = some second ∧
            .startObject :: .key key :: (first ++ second ++ [.endObject]) = es := by
        simpa [treeEvents, membersEvents, Option.bind_eq_some_iff] using h
      rw [List.append_assoc]
      exact reads_object hsax key (reads_tree hsax value hfirst) (closes_members hsax rest hsecond)
        (moreMembers_cons rest)

theorem closes_elements (hsax : sax.Lawful) :
    (elements : List Tree) → {es : List SaxEvent} → elementsEvents config elements = some es →
      Closes size config sax true (moreElements elements) (es ++ [.endArray])
  | [], es, h => by
      obtain rfl := Option.some.inj h
      exact closes_endArray hsax
  | element :: rest, es, h => by
      obtain ⟨first, hfirst, second, hsecond, rfl⟩ :
          ∃ first, treeEvents config element = some first ∧
          ∃ second, elementsEvents config rest = some second ∧ first ++ second = es := by
        simpa [elementsEvents, Option.bind_eq_some_iff] using h
      rw [List.append_assoc]
      exact closes_element (reads_tree hsax element hfirst) (closes_elements hsax rest hsecond)
        (moreElements_cons rest)

theorem closes_members (hsax : sax.Lawful) :
    (members : List (Bytes × Tree)) → {es : List SaxEvent} →
      membersEvents config members = some es →
      Closes size config sax false (moreMembers members) (es ++ [.endObject])
  | [], es, h => by
      obtain rfl := Option.some.inj h
      exact closes_endObject hsax
  | (key, value) :: rest, es, h => by
      obtain ⟨first, hfirst, second, hsecond, rfl⟩ : ∃ first, treeEvents config value = some first ∧
          ∃ second, membersEvents config rest = some second ∧
            .key key :: (first ++ second) = es := by
        simpa [membersEvents, Option.bind_eq_some_iff] using h
      rw [List.cons_append, List.append_assoc]
      exact closes_member hsax key (reads_tree hsax value hfirst) (closes_members hsax rest hsecond)
        (moreMembers_cons rest)

end

end Parser

end Structlog.Json
