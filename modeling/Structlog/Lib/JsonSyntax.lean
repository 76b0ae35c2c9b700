import Structlog.Lib.Utf8

/-!
# The syntax of JSON texts

A text is spelled from tokens with white space before them, and the tokens are
those of a syntax tree.  `Number` is the grammar of numbers and `NumberStage` the
automaton of its table; `Literal` relates what stands between the quotes of a
string to the bytes it means.

Two facts are what a reader needs: the automaton accepts exactly the numbers and
stops behind one when a delimiter follows (`accepts_iff`, `munch_of_accepts`), and
what a literal means is UTF-8 text (`Literal.text`).
-/

namespace Structlog.Lib.JsonSyntax

open Utf8

/-! ## Numbers -/

def IsDigit (b : UInt8) : Prop := 0x30 ≤ b ∧ b ≤ 0x39

instance (b : UInt8) : Decidable (IsDigit b) := inferInstanceAs (Decidable (_ ∧ _))

def Digits (s : Bytes) : Prop := ∀ b ∈ s, IsDigit b

/-- One digit or more. -/
def SomeDigits (s : Bytes) : Prop := s ≠ [] ∧ Digits s

/-- No leading zero. -/
def Whole (s : Bytes) : Prop :=
  s = [0x30] ∨ ∃ d ds, s = d :: ds ∧ IsDigit d ∧ d ≠ 0x30 ∧ Digits ds

def Fraction (s : Bytes) : Prop := s = [] ∨ ∃ ds, s = 0x2E :: ds ∧ SomeDigits ds

/-- An exponent behind its `e`. -/
def Power (s : Bytes) : Prop :=
  SomeDigits s ∨ ∃ c ds, s = c :: ds ∧ (c = 0x2B ∨ c = 0x2D) ∧ SomeDigits ds

def Exponent (s : Bytes) : Prop :=
  s = [] ∨ ∃ e ps, s = e :: ps ∧ (e = 0x65 ∨ e = 0x45) ∧ Power ps

/-- What may follow the digits before the point. -/
def Scale (s : Bytes) : Prop :=
  ∃ fraction exponent, s = fraction ++ exponent ∧ Fraction fraction ∧ Exponent exponent

/-- A number without its sign. -/
def Magnitude (s : Bytes) : Prop := ∃ whole scale, s = whole ++ scale ∧ Whole whole ∧ Scale scale

def Number (s : Bytes) : Prop := Magnitude s ∨ ∃ ms, s = 0x2D :: ms ∧ Magnitude ms

/-- The states of the table. -/
inductive NumberStage
  | init
  | minus
  | zero
  | any1
  | decimal1
  | decimal2
  | exponent
  | sign
  | any2
  deriving DecidableEq, Repr

namespace NumberStage

/-- The row of a state; `none` is `done` or an error. -/
def next : NumberStage → UInt8 → Option NumberStage
  | init, b =>
      if b = 0x2D then some minus
      else if b = 0x30 then some zero
      else if IsDigit b then some any1
      else none
  | minus, b => if b = 0x30 then some zero else if IsDigit b then some any1 else none
  | zero, b =>
      if b = 0x2E then some decimal1
      else if b = 0x65 ∨ b = 0x45 then some exponent
      else none
  | any1, b =>
      if IsDigit b then some any1
      else if b = 0x2E then some decimal1
      else if b = 0x65 ∨ b = 0x45 then some exponent
      else none
  | decimal1, b => if IsDigit b then some decimal2 else none
  | decimal2, b =>
      if IsDigit b then some decimal2
      else if b = 0x65 ∨ b = 0x45 then some exponent
      else none
  | exponent, b =>
      if b = 0x2B ∨ b = 0x2D then some sign else if IsDigit b then some any2 else none
  | sign, b => if IsDigit b then some any2 else none
  | any2, b => if IsDigit b then some any2 else none

/-- Rows with `done`. -/
def accepting : NumberStage → Bool
  | zero | any1 | decimal2 | any2 => true
  | init | minus | decimal1 | exponent | sign => false

def run : NumberStage → Bytes → Option NumberStage
  | σ, [] => some σ
  | σ, b :: rest =>
      match σ.next b with
      | some τ => τ.run rest
      | none => none

end NumberStage

/-! ### The automaton and the grammar -/

/-- Any digits, and then `more`. -/
def DigitsThen (more : Bytes → Prop) (s : Bytes) : Prop :=
  ∃ ds rest, s = ds ++ rest ∧ Digits ds ∧ more rest

/-- What may follow at a state. -/
def NumberStage.Rest : NumberStage → Bytes → Prop
  | init => Number
  | minus => Magnitude
  | zero => Scale
  | any1 => DigitsThen Scale
  | decimal1 => fun s => ∃ d rest, s = d :: rest ∧ IsDigit d ∧ DigitsThen Exponent rest
  | decimal2 => DigitsThen Exponent
  | exponent => Power
  | sign => SomeDigits
  | any2 => Digits

theorem digits_cons_iff {b : UInt8} {s : Bytes} : Digits (b :: s) ↔ IsDigit b ∧ Digits s :=
  List.forall_mem_cons

theorem someDigits_cons_iff {b : UInt8} {s : Bytes} :
    SomeDigits (b :: s) ↔ IsDigit b ∧ Digits s := by
  simp [SomeDigits, digits_cons_iff]

theorem exponent_cons_iff {b : UInt8} {s : Bytes} :
    Exponent (b :: s) ↔ (b = 0x65 ∨ b = 0x45) ∧ Power s := by
  simp [Exponent]

theorem power_cons_iff {b : UInt8} {s : Bytes} :
    Power (b :: s) ↔ (IsDigit b ∧ Digits s) ∨ ((b = 0x2B ∨ b = 0x2D) ∧ SomeDigits s) := by
  simp [Power, someDigits_cons_iff]

theorem digitsThen_cons_iff {more : Bytes → Prop} {b : UInt8} {s : Bytes} :
    DigitsThen more (b :: s) ↔ more (b :: s) ∨ IsDigit b ∧ DigitsThen more s := by
  constructor
  · rintro ⟨ds, rest, hsplit, hds, hmore⟩
    cases ds with
    | nil =>
        obtain rfl : b :: s = rest := hsplit
        exact .inl hmore
    | cons d ds =>
        obtain ⟨rfl, rfl⟩ := List.cons_eq_cons.mp hsplit
        obtain ⟨hd, hds⟩ := digits_cons_iff.mp hds
        exact .inr ⟨hd, ds, rest, rfl, hds, hmore⟩
  · rintro (hmore | ⟨hb, ds, rest, rfl, hds, hmore⟩)
    · exact ⟨[], b :: s, rfl, List.forall_mem_nil _, hmore⟩
    · exact ⟨b :: ds, rest, rfl, digits_cons_iff.mpr ⟨hb, hds⟩, hmore⟩

theorem scale_cons_iff {b : UInt8} {s : Bytes} :
    Scale (b :: s) ↔ Exponent (b :: s) ∨ b = 0x2E ∧ NumberStage.decimal1.Rest s := by
  constructor
  · rintro ⟨fraction, exponent, hsplit, rfl | ⟨ds, rfl, hne, hds⟩, hexponent⟩
    · obtain rfl : b :: s = exponent := hsplit
      exact .inl hexponent
    · obtain ⟨rfl, rfl⟩ := List.cons_eq_cons.mp hsplit
      cases ds with
      | nil => exact absurd rfl hne
      | cons d ds =>
          obtain ⟨hd, hds⟩ := digits_cons_iff.mp hds
          exact .inr ⟨rfl, d, ds ++ exponent, rfl, hd, ds, exponent, rfl, hds, hexponent⟩
  · rintro (hexponent | ⟨rfl, d, _, rfl, hd, ds, exponent, rfl, hds, hexponent⟩)
    · exact ⟨[], b :: s, rfl, .inl rfl, hexponent⟩
    · exact ⟨0x2E :: d :: ds, exponent, rfl,
        .inr ⟨d :: ds, rfl, List.cons_ne_nil _ _, digits_cons_iff.mpr ⟨hd, hds⟩⟩, hexponent⟩

theorem magnitude_cons_iff {b : UInt8} {s : Bytes} :
    Magnitude (b :: s) ↔
      (b = 0x30 ∧ Scale s) ∨ (IsDigit b ∧ b ≠ 0x30 ∧ DigitsThen Scale s) := by
  constructor
  · rintro ⟨whole, scale, hsplit, rfl | ⟨d, ds, rfl, hd, hne, hds⟩, hscale⟩
    · obtain ⟨rfl, rfl⟩ := List.cons_eq_cons.mp hsplit
      exact .inl ⟨rfl, hscale⟩
    · obtain ⟨rfl, rfl⟩ := List.cons_eq_cons.mp hsplit
      exact .inr ⟨hd, hne, ds, scale, rfl, hds, hscale⟩
  · rintro (⟨rfl, hscale⟩ | ⟨hb, hne, ds, scale, rfl, hds, hscale⟩)
    · exact ⟨[0x30], s, rfl, .inl rfl, hscale⟩
    · exact ⟨b :: ds, scale, rfl, .inr ⟨b, ds, rfl, hb, hne, hds⟩, hscale⟩

theorem not_magnitude_nil : ¬ Magnitude [] := by
  rintro ⟨whole, scale, hsplit, rfl | ⟨d, ds, rfl, -⟩, -⟩ <;> cases hsplit

theorem number_cons_iff {b : UInt8} {s : Bytes} :
    Number (b :: s) ↔ Magnitude (b :: s) ∨ b = 0x2D ∧ Magnitude s := by
  simp [Number]

namespace NumberStage

theorem rest_nil_iff (σ : NumberStage) : σ.Rest [] ↔ σ.accepting = true := by
  have hexponent : Exponent [] := .inl rfl
  have hscale : Scale [] := ⟨[], [], rfl, .inl rfl, hexponent⟩
  have hthen {more : Bytes → Prop} (h : more []) : DigitsThen more [] :=
    ⟨[], [], rfl, List.forall_mem_nil _, h⟩
  cases σ with
  | init => simp [Rest, Number, not_magnitude_nil, accepting]
  | minus => simp [Rest, not_magnitude_nil, accepting]
  | zero => simpa [Rest, accepting] using hscale
  | any1 => simpa [Rest, accepting] using hthen hscale
  | decimal1 => simp [Rest, accepting]
  | decimal2 => simpa [Rest, accepting] using hthen hexponent
  | exponent => simp [Rest, Power, SomeDigits, accepting]
  | sign => simp [Rest, SomeDigits, accepting]
  | any2 => simp [Rest, Digits, accepting]

/-- One byte of a number, by the row of the state. -/
theorem rest_cons_iff (σ : NumberStage) (b : UInt8) (s : Bytes) :
    σ.Rest (b :: s) ↔ ∃ τ, σ.next b = some τ ∧ τ.Rest s := by
  -- A digit and the characters that may stand in its place exclude each other.
  have hpoint : ¬ IsDigit 0x2E := by decide
  have hminus : ¬ IsDigit 0x2D := by decide
  have hplus : ¬ IsDigit 0x2B := by decide
  have hlower : ¬ IsDigit 0x65 := by decide
  have hupper : ¬ IsDigit 0x45 := by decide
  have hzero : IsDigit 0x30 := by decide
  cases σ with
  | init =>
      simp only [Rest, number_cons_iff, magnitude_cons_iff, next]
      split_ifs with h₁ h₂ h₃ <;> simp_all
  | minus =>
      simp only [Rest, magnitude_cons_iff, next]
      split_ifs with h₁ h₂ <;> simp_all
  | zero =>
      simp only [Rest, scale_cons_iff, exponent_cons_iff, next]
      split_ifs with h₁ h₂ <;> simp_all
  | any1 =>
      simp only [Rest, digitsThen_cons_iff, scale_cons_iff, exponent_cons_iff, next]
      split_ifs with h₁ h₂ h₃
      · have hne : b ≠ 0x2E := fun h => hpoint (h ▸ h₁)
        have hne' : ¬ (b = 0x65 ∨ b = 0x45) := by
          rintro (rfl | rfl)
          · exact hlower h₁
          · exact hupper h₁
        simp_all
      all_goals simp_all
  | decimal1 =>
      simp only [Rest, next]
      split_ifs with h₁ <;> simp_all
  | decimal2 =>
      simp only [Rest, digitsThen_cons_iff, exponent_cons_iff, next]
      split_ifs with h₁ h₂
      · have hne : ¬ (b = 0x65 ∨ b = 0x45) := by
          rintro (rfl | rfl)
          · exact hlower h₁
          · exact hupper h₁
        simp_all
      all_goals simp_all
  | exponent =>
      simp only [Rest, power_cons_iff, next]
      split_ifs with h₁ h₂
      · have hne : ¬ IsDigit b := by
          rcases h₁ with rfl | rfl
          · exact hplus
          · exact hminus
        simp_all
      all_goals simp_all
  | sign =>
      simp only [Rest, someDigits_cons_iff, next]
      split_ifs with h₁ <;> simp_all
  | any2 =>
      simp only [Rest, digits_cons_iff, next]
      split_ifs with h₁ <;> simp_all

/-- The automaton accepts exactly what the grammar derives. -/
theorem accepts_iff (σ : NumberStage) (s : Bytes) :
    (∃ τ, σ.run s = some τ ∧ τ.accepting = true) ↔ σ.Rest s := by
  induction s generalizing σ with
  | nil => simp [run, rest_nil_iff]
  | cons b s ih =>
      rw [rest_cons_iff]
      cases hnext : σ.next b with
      | none => simp [run, hnext]
      | some τ => simp [run, hnext, ih]

/-- The longest run from a state: where it ends, what it takes and what it leaves. -/
def munch : NumberStage → Bytes → NumberStage × Bytes × Bytes
  | σ, [] => (σ, [], [])
  | σ, b :: s =>
      match σ.next b with
      | none => (σ, [], b :: s)
      | some τ =>
          let (υ, taken, rest) := τ.munch s
          (υ, b :: taken, rest)

theorem munch_append (σ : NumberStage) (s : Bytes) :
    (σ.munch s).2.1 ++ (σ.munch s).2.2 = s := by
  induction s generalizing σ with
  | nil => rfl
  | cons b s ih =>
      rw [munch]
      cases σ.next b with
      | none => rfl
      | some τ => exact congrArg (b :: ·) (ih τ)

theorem run_munch (σ : NumberStage) (s : Bytes) :
    σ.run (σ.munch s).2.1 = some (σ.munch s).1 := by
  induction s generalizing σ with
  | nil => rfl
  | cons b s ih =>
      rw [munch]
      cases hnext : σ.next b with
      | none => rfl
      | some τ =>
          simp only [run, hnext]
          exact ih τ

end NumberStage

/-- A byte that never goes on with a number. -/
def Delimiter (b : UInt8) : Prop := ∀ σ : NumberStage, σ.accepting = true → σ.next b = none

/-- Nothing of a number is left. -/
def Delimited (s : Bytes) : Prop := ∀ b ∈ s.head?, Delimiter b

theorem delimiter_of_ne {b : UInt8} (hdigit : ¬ IsDigit b) (hpoint : b ≠ 0x2E)
    (hlower : b ≠ 0x65) (hupper : b ≠ 0x45) : Delimiter b := by
  intro σ hσ
  cases σ <;> simp_all [NumberStage.next, NumberStage.accepting]

theorem NumberStage.munch_of_run {σ τ : NumberStage} {s rest : Bytes} (hrun : σ.run s = some τ)
    (hτ : τ.accepting = true) (hrest : Delimited rest) : σ.munch (s ++ rest) = (τ, s, rest) := by
  induction s generalizing σ with
  | nil =>
      obtain rfl := Option.some.inj hrun
      cases rest with
      | nil => rfl
      | cons b rest => rw [List.nil_append, munch, hrest b rfl σ hτ]
  | cons b s ih =>
      rw [List.cons_append, munch]
      cases hnext : σ.next b with
      | none => simp [run, hnext] at hrun
      | some υ =>
          simp only [run, hnext] at hrun
          simp only [ih hrun]

/-! ## Strings -/

/-- The value of a hexadecimal digit. -/
def hexValue (b : UInt8) : Option ℕ :=
  if 0x30 ≤ b ∧ b ≤ 0x39 then some (b.toNat - 0x30)
  else if 0x41 ≤ b ∧ b ≤ 0x46 then some (b.toNat - 0x37)
  else if 0x61 ≤ b ∧ b ≤ 0x66 then some (b.toNat - 0x57)
  else none

/-- What four hexadecimal digits say. -/
def CodeUnit (digits : Bytes) (n : ℕ) : Prop :=
  ∃ a b c d i j k l, digits = [a, b, c, d] ∧ hexValue a = some i ∧ hexValue b = some j ∧
    hexValue c = some k ∧ hexValue d = some l ∧ n = i * 4096 + j * 256 + k * 16 + l

/-- The escapes of one letter. -/
def shortEscape (letter : UInt8) : Option UInt8 :=
  if letter = 0x22 then some 0x22
  else if letter = 0x5C then some 0x5C
  else if letter = 0x2F then some 0x2F
  else if letter = 0x62 then some 0x08
  else if letter = 0x66 then some 0x0C
  else if letter = 0x6E then some 0x0A
  else if letter = 0x72 then some 0x0D
  else if letter = 0x74 then some 0x09
  else none

/-- What a piece of a string literal means. -/
inductive Piece : Bytes → Bytes → Prop
  | plain {c : Bytes} (hc : Character c) (hplain : ∀ b ∈ c, 0x20 ≤ b ∧ b ≠ 0x22 ∧ b ≠ 0x5C) :
      Piece c c
  | short {letter b : UInt8} (h : shortEscape letter = some b) : Piece [0x5C, letter] [b]
  | unicode {digits : Bytes} {n : ℕ} (h : CodeUnit digits n)
      (hsurrogate : ¬ (0xD800 ≤ n ∧ n ≤ 0xDFFF)) : Piece (0x5C :: 0x75 :: digits) (encode n)
  | pair {first second : Bytes} {high low : ℕ} (h₁ : CodeUnit first high)
      (hhigh : 0xD800 ≤ high ∧ high ≤ 0xDBFF) (h₂ : CodeUnit second low)
      (hlow : 0xDC00 ≤ low ∧ low ≤ 0xDFFF) :
      Piece (0x5C :: 0x75 :: first ++ 0x5C :: 0x75 :: second)
        (encode (0x10000 + (high - 0xD800) * 0x400 + (low - 0xDC00)))

/-- What the text between two quotes means. -/
inductive Literal : Bytes → Bytes → Prop
  | nil : Literal [] []
  | cons {piece meaning rest s : Bytes} (h : Piece piece meaning) (hrest : Literal rest s) :
      Literal (piece ++ rest) (meaning ++ s)

theorem hexValue_lt {b : UInt8} {n : ℕ} (h : hexValue b = some n) : n < 16 := by
  unfold hexValue at h
  simp only [UInt8.le_iff_toNat_le, UInt8.reduceToNat] at h
  split_ifs at h <;> obtain rfl := Option.some.inj h <;> omega

theorem CodeUnit.lt {digits : Bytes} {n : ℕ} (h : CodeUnit digits n) : n < 0x10000 := by
  obtain ⟨a, b, c, d, i, j, k, l, -, ha, hb, hc, hd, rfl⟩ := h
  have := hexValue_lt ha
  have := hexValue_lt hb
  have := hexValue_lt hc
  have := hexValue_lt hd
  omega

theorem shortEscape_le {letter b : UInt8} (h : shortEscape letter = some b) : b ≤ 0x7F := by
  unfold shortEscape at h
  split_ifs at h <;> obtain rfl := Option.some.inj h <;> decide

/-- Every piece means one character. -/
theorem Piece.character {piece meaning : Bytes} (h : Piece piece meaning) :
    Character meaning := by
  cases h with
  | plain hc _ => exact hc
  | short h => exact .one (shortEscape_le h)
  | unicode h hsurrogate =>
      have := h.lt
      exact encode_character ⟨by omega, hsurrogate⟩
  | pair h₁ hhigh h₂ hlow =>
      exact encode_character ⟨by omega, by omega⟩

theorem Piece.ne_nil {piece meaning : Bytes} (h : Piece piece meaning) : piece ≠ [] := by
  cases h with
  | plain hc _ => exact hc.ne_nil
  | short _ => exact List.cons_ne_nil _ _
  | unicode _ _ => exact List.cons_ne_nil _ _
  | pair _ _ _ _ => exact List.cons_ne_nil _ _

/-- A literal means UTF-8 text, whatever its escapes. -/
theorem Literal.text {body s : Bytes} (h : Literal body s) : Text s := by
  induction h with
  | nil => exact .nil
  | cons h _ ih => exact Text.cons h.character ih

/-! ## Tokens and trees -/

/-- The tokens of a text, a number as it is written. -/
inductive Token
  | null
  | boolean (b : Bool)
  | number (text : Bytes)
  | string (s : Bytes)
  | beginArray
  | endArray
  | beginObject
  | endObject
  | nameSeparator
  | valueSeparator

/-- What a text says, members in their order and repeated ones kept. -/
inductive Tree
  | null
  | boolean (b : Bool)
  | number (text : Bytes)
  | string (s : Bytes)
  | array (elements : List Tree)
  | object (members : List (Bytes × Tree))

mutual

def Tree.tokens : Tree → List Token
  | .null => [.null]
  | .boolean b => [.boolean b]
  | .number text => [.number text]
  | .string s => [.string s]
  | .array elements => .beginArray :: arrayTokens elements
  | .object members => .beginObject :: objectTokens members

/-- Behind the opening bracket. -/
def arrayTokens : List Tree → List Token
  | [] => [.endArray]
  | element :: rest => element.tokens ++ moreElements rest

/-- Behind an element. -/
def moreElements : List Tree → List Token
  | [] => [.endArray]
  | element :: rest => .valueSeparator :: (element.tokens ++ moreElements rest)

/-- Behind the opening brace. -/
def objectTokens : List (Bytes × Tree) → List Token
  | [] => [.endObject]
  | (key, value) :: rest =>
      .string key :: .nameSeparator :: (value.tokens ++ moreMembers rest)

/-- Behind a member. -/
def moreMembers : List (Bytes × Tree) → List Token
  | [] => [.endObject]
  | (key, value) :: rest =>
      .valueSeparator :: .string key :: .nameSeparator :: (value.tokens ++ moreMembers rest)

end

/-! ## Spelling -/

def IsSpace (b : UInt8) : Prop := b = 0x20 ∨ b = 0x09 ∨ b = 0x0A ∨ b = 0x0D

instance (b : UInt8) : Decidable (IsSpace b) :=
  inferInstanceAs (Decidable (_ ∨ _ ∨ _ ∨ _))

def Spaces (s : Bytes) : Prop := ∀ b ∈ s, IsSpace b

/-- How a token is written. -/
inductive Spelling : Token → Bytes → Prop
  | null : Spelling .null (ascii "null")
  | yes : Spelling (.boolean true) (ascii "true")
  | no : Spelling (.boolean false) (ascii "false")
  | number {text : Bytes} (h : Number text) : Spelling (.number text) text
  | string {body s : Bytes} (h : Literal body s) :
      Spelling (.string s) (0x22 :: (body ++ [0x22]))
  | beginArray : Spelling .beginArray [0x5B]
  | endArray : Spelling .endArray [0x5D]
  | beginObject : Spelling .beginObject [0x7B]
  | endObject : Spelling .endObject [0x7D]
  | nameSeparator : Spelling .nameSeparator [0x3A]
  | valueSeparator : Spelling .valueSeparator [0x2C]

/-- Tokens one after the other, white space before each. -/
inductive Spells : List Token → Bytes → Prop
  | nil : Spells [] []
  | cons {token : Token} {spaces spelled rest : Bytes} {tokens : List Token}
      (hspaces : Spaces spaces) (h : Spelling token spelled) (hrest : Spells tokens rest) :
      Spells (token :: tokens) (spaces ++ (spelled ++ rest))

theorem Spells.append {first second : List Token} {s t : Bytes} (h₁ : Spells first s)
    (h₂ : Spells second t) : Spells (first ++ second) (s ++ t) := by
  induction h₁ with
  | nil => exact h₂
  | cons hspaces h _ ih =>
      rw [List.append_assoc, List.append_assoc]
      exact .cons hspaces h ih

theorem IsSpace.delimiter {b : UInt8} (h : IsSpace b) : Delimiter b := by
  rcases h with rfl | rfl | rfl | rfl <;>
    exact delimiter_of_ne (by decide) (by decide) (by decide) (by decide)

/-- White space, and a delimiter or nothing behind it. -/
theorem delimited_spaces {spaces rest : Bytes} (hspaces : Spaces spaces) (hrest : Delimited rest) :
    Delimited (spaces ++ rest) := by
  cases spaces with
  | nil => exact hrest
  | cons b spaces =>
      intro c hc
      obtain rfl := Option.some.inj hc
      exact (hspaces b List.mem_cons_self).delimiter

/-- A comma or a closing bracket delimits a number. -/
theorem Spells.delimited {token : Token} {tokens : List Token} {s : Bytes}
    (h : Spells (token :: tokens) s)
    (htoken : token = .endArray ∨ token = .endObject ∨ token = .valueSeparator) (after : Bytes) :
    Delimited (s ++ after) := by
  have hhead {b : UInt8} (hb : Delimiter b) (rest : Bytes) : Delimited (b :: rest) := by
    intro c hc
    obtain rfl := Option.some.inj hc
    exact hb
  cases h with
  | cons hspaces hspelling _ =>
      rw [List.append_assoc]
      refine delimited_spaces hspaces ?_
      rcases htoken with rfl | rfl | rfl <;> cases hspelling <;>
        exact hhead (delimiter_of_ne (by decide) (by decide) (by decide) (by decide)) _

end Structlog.Lib.JsonSyntax
