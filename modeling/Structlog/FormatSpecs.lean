import Structlog.FormatMessages

/-!
# Format specifiers

`parse_format_specs` reads the specifiers of a field: a fill and an alignment, a sign, `#`,
`0`, a width, a precision, `L` and a type.  It tells a handler what it has read.  Each of
these can be missing, and what tells them apart is the character that they begin with
(`partOf`).  A type that stands alone is read by a shortcut, which changes nothing
(`parseFormatSpecs_eq_inOrder`).

The handler is told all parts of specifiers that have been printed, in their order
(`reads_specs`).  The one exception are specifiers that are empty: the brace behind them is
taken for a fill character if an alignment follows it.
-/

namespace Structlog.Fmt

open Lib

inductive Align
  | left
  | right
  | center
  deriving DecidableEq, Repr

inductive Sign
  | plus
  | minus
  | space
  deriving DecidableEq, Repr

/-- The calls that a handler of specifiers gets. -/
inductive SpecEvent
  | fill (bytes : Bytes)
  | align (align : Align)
  | sign (sign : Sign)
  | hash
  | zero
  | width (n : ℕ)
  | dynamicWidth (argId : ArgId)
  | precision (n : ℕ)
  | dynamicPrecision (argId : ArgId)
  | endPrecision
  | localized
  | type (c : UInt8)
  deriving DecidableEq

def invalidFill : Bytes := ascii "invalid fill character '\x7b'"

def numberTooBig : Bytes := ascii "number is too big"

def missingPrecision : Bytes := ascii "missing precision specifier"

/-- The table of `code_point_length`, by the first five bits. -/
def lengths : List ℕ :=
  [1, 1, 1, 1, 1, 1, 1, 1, 1, 1, 1, 1, 1, 1, 1, 1, 0, 0, 0, 0, 0, 0, 0, 0, 2, 2, 2, 2, 3, 3, 4, 0]

def codePointLength (c : UInt8) : ℕ :=
  let len := lengths.getD (c.toNat / 8) 0
  if len = 0 then 1 else len

def isAsciiLetter (c : UInt8) : Bool := (0x61 ≤ c && c ≤ 0x7A) || (0x41 ≤ c && c ≤ 0x5A)

def alignOf (c : UInt8) : Option Align :=
  if c = 0x3C then some .left
  else if c = 0x3E then some .right
  else if c = 0x5E then some .center
  else none

def signOf (c : UInt8) : Option Sign :=
  if c = 0x2B then some .plus
  else if c = 0x2D then some .minus
  else if c = 0x20 then some .space
  else none

section Parse

variable {σ : Type} (h : SpecEvent → σ → Except Bytes σ)

/-- `parse_align`: the character behind the first code point is looked at first. -/
def parseAlign (s : σ) : Bytes → Except Bytes (σ × Bytes)
  | [] => .ok (s, [])
  | c :: after =>
      let rest := c :: after
      let p := if codePointLength c < rest.length then codePointLength c else 0
      match alignOf (rest.getD p 0) with
      | some align =>
          -- the alignment itself is the first character if nothing else is left
          if p = 0 then (h (.align align) s).map fun s => (s, after)
          else if c = 0x7B then .error invalidFill
          else
            (h (.fill (rest.take p)) s).bind fun s =>
              (h (.align align) s).map fun s => (s, rest.drop (p + 1))
      | none =>
          match alignOf c with
          | some align => (h (.align align) s).map fun s => (s, after)
          | none => .ok (s, rest)

/-- A part of one character. -/
def parseFlag (event : UInt8 → Option SpecEvent) (s : σ) : Bytes → Except Bytes (σ × Bytes)
  | [] => .ok (s, [])
  | c :: after =>
      match event c with
      | some e => (h e s).map fun s => (s, after)
      | none => .ok (s, c :: after)

/-- A width or a precision that is an argument, behind its brace. -/
def parseDynamic (event : ArgId → SpecEvent) (s : σ) : Bytes → Except Bytes (σ × Bytes)
  | [] => .error invalidFormat
  | c :: after =>
      (parseArgId (c :: after)).bind fun found =>
        (h (event found.1) s).bind fun s =>
          match found.2 with
          | [] => .error invalidFormat
          | d :: next => if d = 0x7D then .ok (s, next) else .error invalidFormat

/-- A width or a precision that is a number. -/
def parseNumber (event : ℕ → SpecEvent) (s : σ) (rest : Bytes) : Except Bytes (σ × Bytes) :=
  match parseNonnegativeInt rest with
  | (some n, next) => (h (event n) s).map fun s => (s, next)
  | (none, _) => .error numberTooBig

/-- A width or a precision, if one begins here. -/
def parseSize (fixed : ℕ → SpecEvent) (dynamic : ArgId → SpecEvent) (s : σ) :
    Bytes → Option (Except Bytes (σ × Bytes))
  | [] => none
  | c :: after =>
      if isDigit c then some (parseNumber h fixed s (c :: after))
      else if c = 0x7B then some (parseDynamic h dynamic s after)
      else none

def parseSign (s : σ) (rest : Bytes) : Except Bytes (σ × Bytes) :=
  parseFlag h (fun c => (signOf c).map .sign) s rest

def parseHash (s : σ) (rest : Bytes) : Except Bytes (σ × Bytes) :=
  parseFlag h (fun c => if c = 0x23 then some .hash else none) s rest

def parseZero (s : σ) (rest : Bytes) : Except Bytes (σ × Bytes) :=
  parseFlag h (fun c => if c = 0x30 then some .zero else none) s rest

/-- `parse_width`. -/
def parseWidth (s : σ) (rest : Bytes) : Except Bytes (σ × Bytes) :=
  (parseSize h .width .dynamicWidth s rest).getD (.ok (s, rest))

/-- One part, and then what is behind it. -/
def andThen (first next : σ → Bytes → Except Bytes (σ × Bytes)) (s : σ) (rest : Bytes) :
    Except Bytes (σ × Bytes) :=
  (first s rest).bind fun p => next p.1 p.2

/-- `parse_precision`, behind the point. -/
def parsePrecision : σ → Bytes → Except Bytes (σ × Bytes) :=
  andThen (fun s rest =>
      (parseSize h .precision .dynamicPrecision s rest).getD (.error missingPrecision))
    fun s rest => (h .endPrecision s).map fun s => (s, rest)

/-- There is a precision if there is a point. -/
def parsePoint (s : σ) : Bytes → Except Bytes (σ × Bytes)
  | [] => .ok (s, [])
  | c :: after => if c = 0x2E then parsePrecision h s after else .ok (s, c :: after)

def parseLocalized (s : σ) (rest : Bytes) : Except Bytes (σ × Bytes) :=
  parseFlag h (fun c => if c = 0x4C then some .localized else none) s rest

def parseType (s : σ) (rest : Bytes) : Except Bytes (σ × Bytes) :=
  parseFlag h (fun c => if c = 0x7D then none else some (.type c)) s rest

/-- The specifiers in their order. -/
def parseInOrder : σ → Bytes → Except Bytes (σ × Bytes) :=
  andThen (parseAlign h) <| andThen (parseSign h) <| andThen (parseHash h) <|
    andThen (parseZero h) <| andThen (parseWidth h) <| andThen (parsePoint h) <|
      andThen (parseLocalized h) (parseType h)

/-- `parse_format_specs`, which looks for a type that stands alone first. -/
def parseFormatSpecs (s : σ) (rest : Bytes) : Except Bytes (σ × Bytes) :=
  match rest with
  | c :: d :: after =>
      if d = 0x7D ∧ isAsciiLetter c ∧ c ≠ 0x4C then
        (h (.type c) s).map fun s => (s, d :: after)
      else parseInOrder h s (c :: d :: after)
  | _ => parseInOrder h s rest

end Parse

/-! ## Which part begins with a character -/

/-- The number of the part, in their order. -/
def partOf (c : UInt8) : ℕ :=
  if (signOf c).isSome then 1
  else if c = 0x23 then 2
  else if c = 0x30 then 3
  else if isDigit c ∨ c = 0x7B then 4
  else if c = 0x2E then 5
  else if c = 0x4C then 6
  else if isAsciiLetter c then 7
  else if c = 0x7D then 8
  else 0

theorem part_ascii : ∀ c : UInt8, 1 ≤ partOf c → codePointLength c = 1 ∧ alignOf c = none :=
  forall_byte (by decide +kernel)

theorem part_later : ∀ c : UInt8,
    (2 ≤ partOf c → signOf c = none) ∧ (3 ≤ partOf c → c ≠ 0x23) ∧ (4 ≤ partOf c → c ≠ 0x30) ∧
      (5 ≤ partOf c → isDigit c = false ∧ c ≠ 0x7B) ∧ (6 ≤ partOf c → c ≠ 0x2E) ∧
      (7 ≤ partOf c → c ≠ 0x4C) ∧ (8 ≤ partOf c → c = 0x7D) :=
  forall_byte (by decide +kernel)

theorem part_letter : ∀ c : UInt8, isAsciiLetter c → c ≠ 0x4C → partOf c = 7 ∧ c ≠ 0x7D :=
  forall_byte (by decide +kernel)

theorem part_digit : ∀ c : UInt8, isDigit c → c ≠ 0x30 → partOf c = 4 :=
  forall_byte (by decide +kernel)

/-! ## One part after the other -/

/-- The text begins with the part `k` or a later one. -/
def From (k : ℕ) (text : Bytes) : Prop := ∃ c after, text = c :: after ∧ k ≤ partOf c

theorem From.mono {j k : ℕ} {text : Bytes} (hle : j ≤ k) (h : From k text) : From j text := by
  obtain ⟨c, after, rfl, hpart⟩ := h
  exact ⟨c, after, rfl, hle.trans hpart⟩

/-- Telling a handler one thing after the other. -/
def emit {σ : Type} (h : SpecEvent → σ → Except Bytes σ) : List SpecEvent → σ → Except Bytes σ
  | [], s => .ok s
  | e :: events, s => (h e s).bind (emit h events)

section Parts

variable {σ : Type} {h : SpecEvent → σ → Except Bytes σ}

theorem emit_append (first second : List SpecEvent) (s : σ) :
    emit h (first ++ second) s = (emit h first s).bind (emit h second) := by
  induction first generalizing s with
  | nil => rfl
  | cons e first ih =>
      rw [List.cons_append, emit, emit]
      cases h e s with
      | error message => rfl
      | ok s => exact ih s

theorem emit_one (e : SpecEvent) (s : σ) : emit h [e] s = h e s := by
  rw [emit]
  cases h e s <;> rfl

theorem parseFlag_some {event : UInt8 → Option SpecEvent} {c : UInt8} {e : SpecEvent}
    (hc : event c = some e) (s : σ) (rest : Bytes) :
    parseFlag h event s (c :: rest) = (emit h [e] s).map fun s => (s, rest) := by
  rw [parseFlag, hc, emit_one]

theorem parseFlag_none {event : UInt8 → Option SpecEvent} {c : UInt8} (hc : event c = none)
    (s : σ) (rest : Bytes) : parseFlag h event s (c :: rest) = .ok (s, c :: rest) := by
  rw [parseFlag, hc]

theorem parseAlign_none {c : UInt8} (hc : 1 ≤ partOf c) {after : Bytes}
    (hafter : ∀ d ∈ after.head?, alignOf d = none) (s : σ) :
    parseAlign h s (c :: after) = .ok (s, c :: after) := by
  obtain ⟨hlength, halign⟩ := part_ascii c hc
  cases after with
  | nil => simp [parseAlign, hlength, halign]
  | cons d after =>
      have hd := hafter d rfl
      simp [parseAlign, hlength, halign, hd]

/-- `text` is `rest` behind what tells the handler `events`. -/
def Reads (h : SpecEvent → σ → Except Bytes σ) (parse : σ → Bytes → Except Bytes (σ × Bytes))
    (text : Bytes) (events : List SpecEvent) (rest : Bytes) : Prop :=
  ∀ s, parse s text = (emit h events s).map fun s => (s, rest)

theorem Reads.andThen {first next : σ → Bytes → Except Bytes (σ × Bytes)}
    {text tail rest : Bytes} {events events' : List SpecEvent}
    (hfirst : Reads h first text events tail) (hnext : Reads h next tail events' rest) :
    Reads h (andThen first next) text (events ++ events') rest := by
  intro s
  rw [Fmt.andThen, hfirst s, emit_append]
  cases emit h events s with
  | error message => rfl
  | ok s => exact hnext s

/-! ### Widths and precisions -/

end Parts

/-- A width or a precision. -/
inductive FieldSize
  | fixed (n : ℕ) (isInt : n ≤ intMax)
  | dynamic (argId : ArgId) (identifier : argId.Identifier)

namespace FieldSize

def print : FieldSize → Bytes
  | fixed n _ => decimal n
  | dynamic argId _ => 0x7B :: (argId.print ++ [0x7D])

def event (onFixed : ℕ → SpecEvent) (onDynamic : ArgId → SpecEvent) : FieldSize → SpecEvent
  | fixed n _ => onFixed n
  | dynamic argId _ => onDynamic argId.read

end FieldSize

section Parts

variable {σ : Type} {h : SpecEvent → σ → Except Bytes σ}

theorem parseNumber_decimal (event : ℕ → SpecEvent) {n : ℕ} (hn : n ≤ intMax) (s : σ)
    {tail : Bytes} (htail : From 5 tail) :
    parseNumber h event s (decimal n ++ tail) = (emit h [event n] s).map fun s => (s, tail) := by
  obtain ⟨c, after, rfl, hc⟩ := htail
  have hdigit : ¬ isDigit c := by
    rw [((part_later c).2.2.2.1 hc).1]
    exact Bool.false_ne_true
  rw [parseNumber, parseNonnegativeInt_decimal n hdigit after, if_pos hn, emit_one]

theorem parseDynamic_print (event : ArgId → SpecEvent) {argId : ArgId}
    (hargId : argId.Identifier) (s : σ) (tail : Bytes) :
    parseDynamic h event s (argId.print ++ 0x7D :: tail) =
      (emit h [event argId.read] s).map fun s => (s, tail) := by
  cases hprint : argId.print ++ 0x7D :: tail with
  | nil => simp at hprint
  | cons c after =>
      rw [parseDynamic, ← hprint, parseArgId_print hargId (.inl rfl), emit_one]
      change (h (event argId.read) s).bind _ = _
      cases h (event argId.read) s <;> rfl

theorem parseSize_print (onFixed : ℕ → SpecEvent) (onDynamic : ArgId → SpecEvent)
    (size : FieldSize) (s : σ) {tail : Bytes} (htail : From 5 tail) :
    parseSize h onFixed onDynamic s (size.print ++ tail) =
      some ((emit h [size.event onFixed onDynamic] s).map fun s => (s, tail)) := by
  cases size with
  | fixed n isInt =>
      obtain ⟨c, after, hdecimal, hc⟩ := decimal_cons n
      have hnumber := parseNumber_decimal (h := h) onFixed isInt s htail
      rw [FieldSize.print, FieldSize.event, ← hnumber, hdecimal, List.cons_append, parseSize,
        if_pos hc]
  | dynamic argId hargId =>
      rw [FieldSize.print, FieldSize.event, List.cons_append, List.append_assoc, parseSize,
        if_neg (by decide), if_pos rfl]
      exact congrArg some (parseDynamic_print onDynamic hargId s tail)

theorem parseSize_none (onFixed : ℕ → SpecEvent) (onDynamic : ArgId → SpecEvent) (s : σ)
    {tail : Bytes} (htail : From 5 tail) : parseSize h onFixed onDynamic s tail = none := by
  obtain ⟨c, after, rfl, hc⟩ := htail
  obtain ⟨hdigit, hbrace⟩ := (part_later c).2.2.2.1 hc
  rw [parseSize, if_neg (by rw [hdigit]; exact Bool.false_ne_true), if_neg hbrace]

end Parts

/-! ## What the specifiers are -/

/-- A fill character, which is one code point. -/
structure FillChar where
  first : UInt8
  rest : Bytes
  notBrace : first ≠ 0x7B
  whole : codePointLength first = rest.length + 1

structure FormatSpecs where
  align : Option (Option FillChar × Align)
  sign : Option Sign
  alt : Bool
  zero : Bool
  width : Option FieldSize
  /-- A zero before the width is the flag. -/
  positive : ∀ isInt, width ≠ some (.fixed 0 isInt)
  precision : Option FieldSize
  localized : Bool
  type : Option {c : UInt8 // isAsciiLetter c ∧ c ≠ 0x4C}

def Align.char : Align → UInt8
  | left => 0x3C
  | right => 0x3E
  | center => 0x5E

def Sign.char : Sign → UInt8
  | plus => 0x2B
  | minus => 0x2D
  | space => 0x20

/-- A part of one character, with what it tells the handler. -/
abbrev Part := Option (UInt8 × SpecEvent)

def Part.text (part : Part) : Bytes := (part.map Prod.fst).toList

def Part.events (part : Part) : List SpecEvent := (part.map Prod.snd).toList

namespace FormatSpecs

variable (specs : FormatSpecs)

def alignText : Bytes :=
  match specs.align with
  | none => []
  | some (none, align) => [align.char]
  | some (some fill, align) => fill.first :: (fill.rest ++ [align.char])

def alignEvents : List SpecEvent :=
  match specs.align with
  | none => []
  | some (none, align) => [.align align]
  | some (some fill, align) => [.fill (fill.first :: fill.rest), .align align]

def signPart : Part := specs.sign.map fun sign => (sign.char, .sign sign)

def hashPart : Part := if specs.alt then some (0x23, .hash) else none

def zeroPart : Part := if specs.zero then some (0x30, .zero) else none

def widthText : Bytes := specs.width.elim [] FieldSize.print

def widthEvents : List SpecEvent :=
  specs.width.elim [] fun size => [size.event .width .dynamicWidth]

def precisionText : Bytes := specs.precision.elim [] fun size => 0x2E :: size.print

def precisionEvents : List SpecEvent :=
  specs.precision.elim [] fun size => [size.event .precision .dynamicPrecision, .endPrecision]

def localizedPart : Part := if specs.localized then some (0x4C, .localized) else none

def typePart : Part := specs.type.map fun c => (c.1, .type c.1)

/-- All parts behind the alignment. -/
def body : Bytes :=
  specs.signPart.text ++ (specs.hashPart.text ++ (specs.zeroPart.text ++ (specs.widthText ++
    (specs.precisionText ++ (specs.localizedPart.text ++ specs.typePart.text)))))

def print : Bytes := specs.alignText ++ specs.body

def events : List SpecEvent :=
  specs.alignEvents ++ (specs.signPart.events ++ (specs.hashPart.events ++
    (specs.zeroPart.events ++ (specs.widthEvents ++ (specs.precisionEvents ++
      (specs.localizedPart.events ++ specs.typePart.events))))))

end FormatSpecs

/-! ## The specifiers are read -/

theorem alignOf_of_isNameChar : ∀ c : UInt8, isNameChar c → alignOf c = none :=
  forall_byte (by decide +kernel)

theorem From.part {k : ℕ} {part : Part} (hpart : ∀ p ∈ part, k ≤ partOf p.1) {tail : Bytes}
    (htail : From k tail) : From k (part.text ++ tail) := by
  cases part with
  | none => exact htail
  | some p => exact ⟨p.1, tail, rfl, hpart p rfl⟩

theorem Part.unaligned {part : Part} (hpart : ∀ p ∈ part, 1 ≤ partOf p.1) :
    ∀ c ∈ part.text, alignOf c = none := by
  intro c hc
  rw [Part.text, Option.mem_toList, Option.map_eq_some_iff] at hc
  obtain ⟨p, hp, rfl⟩ := hc
  exact (part_ascii p.1 (hpart p hp)).2

/-- A part that is there or not. -/
theorem Part.mem_flag {on : Bool} {c : UInt8} {e : SpecEvent} {k : ℕ} (hc : k ≤ partOf c) :
    ∀ p ∈ (if on then some (c, e) else none : Part),
      k ≤ partOf p.1 ∧ (if p.1 = c then some e else none) = some p.2 := by
  intro p hp
  split_ifs at hp
  · obtain rfl : (c, e) = p := Option.some.inj hp
    exact ⟨hc, if_pos rfl⟩
  · cases hp

theorem ArgId.unaligned {argId : ArgId} (hargId : argId.Identifier) :
    ∀ c ∈ argId.print, alignOf c = none := by
  intro c hc
  cases argId with
  | auto => cases hc
  | index id =>
      have hdigit : isDigit c := isDigit_of_mem_decimal hc
      exact alignOf_of_isNameChar c (by rw [isNameChar, hdigit, Bool.or_true])
  | name id =>
      obtain ⟨d, after, rfl, hd, hafter⟩ := hargId
      rcases List.mem_cons.mp hc with rfl | hc
      · exact alignOf_of_isNameChar c (by rw [isNameChar, hd, Bool.true_or])
      · exact alignOf_of_isNameChar c (hafter c hc)

theorem FieldSize.unaligned (size : FieldSize) : ∀ c ∈ size.print, alignOf c = none := by
  intro c hc
  cases size with
  | fixed n _ => exact @ArgId.unaligned (.index n) trivial c hc
  | dynamic argId hargId =>
      rw [FieldSize.print, List.mem_cons, List.mem_append, List.mem_singleton] at hc
      rcases hc with rfl | hc | rfl
      · rfl
      · exact ArgId.unaligned hargId c hc
      · rfl

namespace FormatSpecs

variable (specs : FormatSpecs)

theorem signPart_mem : ∀ p ∈ specs.signPart,
    1 ≤ partOf p.1 ∧ (signOf p.1).map SpecEvent.sign = some p.2 := by
  intro p hp
  obtain ⟨sign, -, rfl⟩ := Option.map_eq_some_iff.mp hp
  cases sign <;> exact ⟨by decide, rfl⟩

theorem hashPart_mem : ∀ p ∈ specs.hashPart,
    2 ≤ partOf p.1 ∧ (if p.1 = 0x23 then some SpecEvent.hash else none) = some p.2 :=
  Part.mem_flag (by decide)

theorem zeroPart_mem : ∀ p ∈ specs.zeroPart,
    3 ≤ partOf p.1 ∧ (if p.1 = 0x30 then some SpecEvent.zero else none) = some p.2 :=
  Part.mem_flag (by decide)

theorem localizedPart_mem : ∀ p ∈ specs.localizedPart,
    6 ≤ partOf p.1 ∧ (if p.1 = 0x4C then some SpecEvent.localized else none) = some p.2 :=
  Part.mem_flag (by decide)

theorem typePart_mem : ∀ p ∈ specs.typePart,
    7 ≤ partOf p.1 ∧ (if p.1 = 0x7D then none else some (SpecEvent.type p.1)) = some p.2 := by
  intro p hp
  obtain ⟨c, -, rfl⟩ := Option.map_eq_some_iff.mp hp
  obtain ⟨hpart, hbrace⟩ := part_letter c.1 c.2.1 c.2.2
  exact ⟨hpart.ge, if_neg hbrace⟩

theorem from_width {tail : Bytes} (htail : From 4 tail) : From 4 (specs.widthText ++ tail) := by
  rcases hwidth : specs.width with _ | ⟨n, isInt⟩ | ⟨argId, hargId⟩
  · rw [widthText, hwidth]
    exact htail
  · have hpos : 0 < n := Nat.pos_of_ne_zero fun hn => by
      subst hn
      exact specs.positive isInt hwidth
    obtain ⟨d, ds, hdecimal, hd⟩ := decimal_of_pos hpos
    have hdigit : isDigit d := isDigit_of_mem_decimal (hdecimal ▸ List.mem_cons_self)
    rw [widthText, hwidth]
    exact ⟨d, ds ++ tail, by rw [Option.elim, FieldSize.print, hdecimal]; rfl,
      (part_digit d hdigit hd).ge⟩
  · rw [widthText, hwidth]
    exact ⟨0x7B, _, rfl, by decide⟩

theorem from_precision {tail : Bytes} (htail : From 5 tail) :
    From 5 (specs.precisionText ++ tail) := by
  rw [precisionText]
  cases specs.precision with
  | none => exact htail
  | some size => exact ⟨0x2E, _, rfl, by decide⟩

theorem body_unaligned : ∀ c ∈ specs.body, alignOf c = none := by
  intro c hc
  simp only [body, List.mem_append] at hc
  rcases hc with hc | hc | hc | hc | hc | hc | hc
  · exact Part.unaligned (fun p hp => (specs.signPart_mem p hp).1) c hc
  · exact Part.unaligned (fun p hp => le_trans (by decide) (specs.hashPart_mem p hp).1) c hc
  · exact Part.unaligned (fun p hp => le_trans (by decide) (specs.zeroPart_mem p hp).1) c hc
  · rw [widthText] at hc
    cases hwidth : specs.width with
    | none => rw [hwidth] at hc; cases hc
    | some size => rw [hwidth] at hc; exact size.unaligned c hc
  · rw [precisionText] at hc
    cases hprecision : specs.precision with
    | none => rw [hprecision] at hc; cases hc
    | some size =>
        rw [hprecision] at hc
        rcases List.mem_cons.mp hc with rfl | hc
        · rfl
        · exact size.unaligned c hc
  · exact Part.unaligned (fun p hp => le_trans (by decide) (specs.localizedPart_mem p hp).1) c hc
  · exact Part.unaligned (fun p hp => le_trans (by decide) (specs.typePart_mem p hp).1) c hc

/-- The second character is no alignment, which would make the first one the fill. -/
theorem second_unaligned {rest : Bytes}
    (hrest : specs.print = [] → ∀ c ∈ rest.head?, alignOf c = none) (hnone : specs.align = none) :
    ∀ d ∈ (specs.body ++ 0x7D :: rest).tail.head?, alignOf d = none := by
  intro d hd
  have hunaligned := specs.body_unaligned
  cases hbody : specs.body with
  | nil =>
      have hprint : specs.print = [] := by
        rw [print, alignText, hnone, hbody]
        rfl
      rw [hbody] at hd
      exact hrest hprint d hd
  | cons b after =>
      rw [hbody] at hd hunaligned
      cases after with
      | nil =>
          cases hd
          rfl
      | cons c after =>
          obtain rfl : c = d := Option.some.inj hd
          exact hunaligned c (List.mem_cons_of_mem b List.mem_cons_self)

def ofType (c : {c : UInt8 // isAsciiLetter c ∧ c ≠ 0x4C}) : FormatSpecs where
  align := none
  sign := none
  alt := false
  zero := false
  width := none
  positive := fun _ heq => by cases heq
  precision := none
  localized := false
  type := some c

end FormatSpecs

section Read

variable {σ : Type} {h : SpecEvent → σ → Except Bytes σ}

theorem reads_part {event : UInt8 → Option SpecEvent} {part : Part}
    (hpart : ∀ p ∈ part, event p.1 = some p.2) {k : ℕ}
    (hevent : ∀ c, k ≤ partOf c → event c = none) {tail : Bytes} (htail : From k tail) :
    Reads h (parseFlag h event) (part.text ++ tail) part.events tail := by
  intro s
  cases part with
  | none =>
      obtain ⟨c, after, rfl, hc⟩ := htail
      exact parseFlag_none (hevent c hc) s after
  | some p => exact parseFlag_some (hpart p rfl) s tail

theorem reads_align (specs : FormatSpecs) {tail : Bytes} (htail : From 1 tail)
    (hsecond : specs.align = none → ∀ d ∈ tail.tail.head?, alignOf d = none) :
    Reads h (parseAlign h) (specs.alignText ++ tail) specs.alignEvents tail := by
  intro s
  obtain ⟨c, after, rfl, hc⟩ := htail
  -- what is behind an alignment is no alignment
  obtain ⟨-, hnot⟩ := part_ascii c hc
  rw [FormatSpecs.alignText, FormatSpecs.alignEvents]
  rcases halign : specs.align with _ | ⟨_ | fill, align⟩
  · exact parseAlign_none hc (hsecond halign) s
  · have hlength : codePointLength align.char = 1 := by cases align <;> rfl
    have hof : alignOf align.char = some align := by cases align <;> rfl
    simp [parseAlign, hlength, hof, hnot, emit_one]
  · have hof : alignOf align.char = some align := by cases align <;> rfl
    have htext : fill.first :: (fill.rest ++ [align.char]) ++ c :: after =
        fill.first :: (fill.rest ++ align.char :: c :: after) := by
      rw [List.cons_append, List.append_assoc]
      rfl
    have htold : emit h [.fill (fill.first :: fill.rest), .align align] s =
        (h (.fill (fill.first :: fill.rest)) s).bind (h (.align align)) := by
      rw [emit]
      exact congrArg _ (funext (emit_one _))
    dsimp only
    rw [htext, htold, parseAlign]
    simp [fill.whole, hof, fill.notBrace]
    cases h (.fill (fill.first :: fill.rest)) s <;> rfl

theorem reads_width (specs : FormatSpecs) {tail : Bytes} (htail : From 5 tail) :
    Reads h (parseWidth h) (specs.widthText ++ tail) specs.widthEvents tail := by
  intro s
  rw [parseWidth, FormatSpecs.widthText, FormatSpecs.widthEvents]
  cases specs.width with
  | none =>
      have hnone := parseSize_none (h := h) .width .dynamicWidth s htail
      rw [Option.elim, List.nil_append, hnone]
      rfl
  | some size =>
      rw [Option.elim, parseSize_print .width .dynamicWidth size s htail]
      rfl

theorem reads_precision (specs : FormatSpecs) {tail : Bytes} (htail : From 6 tail) :
    Reads h (parsePoint h) (specs.precisionText ++ tail) specs.precisionEvents tail := by
  intro s
  rw [FormatSpecs.precisionText, FormatSpecs.precisionEvents]
  cases specs.precision with
  | none =>
      obtain ⟨c, after, rfl, hc⟩ := htail
      exact if_neg ((part_later c).2.2.2.2.1 hc)
  | some size =>
      have hsize : Reads h (fun s rest =>
          (parseSize h .precision .dynamicPrecision s rest).getD (.error missingPrecision))
          (size.print ++ tail) [size.event .precision .dynamicPrecision] tail := by
        intro s
        dsimp only
        rw [parseSize_print .precision .dynamicPrecision size s (htail.mono (by decide))]
        rfl
      have hend : Reads h (fun s rest => (h .endPrecision s).map fun s => (s, rest)) tail
          [.endPrecision] tail := by
        intro s
        rw [emit_one]
      exact hsize.andThen hend s

theorem reads_inOrder (specs : FormatSpecs) {rest : Bytes}
    (hrest : specs.print = [] → ∀ c ∈ rest.head?, alignOf c = none) :
    Reads h (parseInOrder h) (specs.print ++ 0x7D :: rest) specs.events (0x7D :: rest) := by
  -- from the last part to the first: what is left begins with none of the parts before
  have hbrace : From 8 (0x7D :: rest) := ⟨0x7D, rest, rfl, by decide⟩
  have htype := (hbrace.mono (by decide)).part fun p hp => (specs.typePart_mem p hp).1
  have hlocalized := (htype.mono (by decide)).part fun p hp => (specs.localizedPart_mem p hp).1
  have hprecision := specs.from_precision (hlocalized.mono (by decide))
  have hwidth := specs.from_width (hprecision.mono (by decide))
  have hzero := (hwidth.mono (by decide)).part fun p hp => (specs.zeroPart_mem p hp).1
  have hhash := (hzero.mono (by decide)).part fun p hp => (specs.hashPart_mem p hp).1
  have hsign := (hhash.mono (by decide)).part fun p hp => (specs.signPart_mem p hp).1
  have hbody : specs.body ++ 0x7D :: rest = specs.signPart.text ++ (specs.hashPart.text ++
      (specs.zeroPart.text ++ (specs.widthText ++ (specs.precisionText ++
        (specs.localizedPart.text ++ (specs.typePart.text ++ 0x7D :: rest)))))) := by
    simp only [FormatSpecs.body, List.append_assoc]
  have hsecond := specs.second_unaligned hrest
  rw [FormatSpecs.print, List.append_assoc, hbody]
  rw [hbody] at hsecond
  exact (reads_align specs hsign hsecond).andThen <|
    (reads_part (fun p hp => (specs.signPart_mem p hp).2)
      (fun c hc => by rw [(part_later c).1 hc]; rfl) hhash).andThen <|
    (reads_part (fun p hp => (specs.hashPart_mem p hp).2)
      (fun c hc => if_neg ((part_later c).2.1 hc)) hzero).andThen <|
    (reads_part (fun p hp => (specs.zeroPart_mem p hp).2)
      (fun c hc => if_neg ((part_later c).2.2.1 hc)) hwidth).andThen <|
    (reads_width specs hprecision).andThen <|
    (reads_precision specs hlocalized).andThen <|
    (reads_part (fun p hp => (specs.localizedPart_mem p hp).2)
      (fun c hc => if_neg ((part_later c).2.2.2.2.2.1 hc)) htype).andThen <|
    reads_part (fun p hp => (specs.typePart_mem p hp).2)
      (fun c hc => if_pos ((part_later c).2.2.2.2.2.2 hc)) hbrace

/-- A type that stands alone is read as the other specifiers are. -/
theorem parseFormatSpecs_eq_inOrder (s : σ) (rest : Bytes) :
    parseFormatSpecs h s rest = parseInOrder h s rest := by
  unfold parseFormatSpecs
  split
  next c d after =>
    split_ifs with hletter
    · obtain ⟨rfl, hc, hother⟩ := hletter
      -- read in order, a type alone is specifiers that have nothing else
      have halone : parseInOrder h s (c :: 0x7D :: after) = _ :=
        reads_inOrder (FormatSpecs.ofType ⟨c, hc, hother⟩) (fun hprint => by cases hprint) s
      have htold : emit h (FormatSpecs.ofType ⟨c, hc, hother⟩).events s = h (.type c) s :=
        emit_one (.type c) s
      rw [htold] at halone
      exact halone.symm
    · rfl
  · rfl

theorem reads_specs (specs : FormatSpecs) {rest : Bytes}
    (hrest : specs.print = [] → ∀ c ∈ rest.head?, alignOf c = none) :
    Reads h (parseFormatSpecs h) (specs.print ++ 0x7D :: rest) specs.events (0x7D :: rest) := by
  intro s
  rw [parseFormatSpecs_eq_inOrder]
  exact reads_inOrder specs hrest s

-- the brace behind empty specifiers is taken for a fill
example : parseFormatSpecs (fun e (told : List SpecEvent) => .ok (told ++ [e])) [] [0x7D, 0x3C] =
    .ok ([.fill [0x7D], .align .left], []) := by
  rfl

end Read

/-! ## What is behind the specifiers -/

/-- What is left is at the end of what has been given. -/
def Leaves {σ : Type} (parse : σ → Bytes → Except Bytes (σ × Bytes)) : Prop :=
  ∀ s rest s' next, parse s rest = .ok (s', next) → next <:+ rest

section Suffix

variable {σ : Type} {h : SpecEvent → σ → Except Bytes σ}

theorem Leaves.andThen {first next : σ → Bytes → Except Bytes (σ × Bytes)}
    (hfirst : Leaves first) (hnext : Leaves next) : Leaves (andThen first next) := by
  intro s rest s' last hok
  obtain ⟨⟨t, tail⟩, hread, hok⟩ := bind_eq_ok hok
  exact (hnext t tail s' last hok).trans (hfirst s rest t tail hread)

/-- What is left after the handler has been told something does not depend on it. -/
theorem next_eq_of_map {x : Except Bytes σ} {s' : σ} {next tail : Bytes}
    (hok : (x.map fun s => (s, tail)) = .ok (s', next)) : next = tail := by
  obtain ⟨t, -, heq⟩ := map_eq_ok hok
  exact (Prod.mk.inj heq).2.symm

theorem parseFlag_leaves (event : UInt8 → Option SpecEvent) : Leaves (parseFlag h event) := by
  intro s rest s' next hok
  cases rest with
  | nil =>
      obtain ⟨-, rfl⟩ := Prod.mk.inj (Except.ok.inj hok)
      exact List.suffix_rfl
  | cons c after =>
      rw [parseFlag] at hok
      cases hevent : event c with
      | none =>
          rw [hevent] at hok
          obtain ⟨-, rfl⟩ := Prod.mk.inj (Except.ok.inj hok)
          exact List.suffix_rfl
      | some e =>
          rw [hevent] at hok
          rw [next_eq_of_map hok]
          exact List.suffix_cons c after

theorem parseAlign_leaves : Leaves (parseAlign h) := by
  intro s rest s' next hok
  cases rest with
  | nil =>
      obtain ⟨-, rfl⟩ := Prod.mk.inj (Except.ok.inj hok)
      exact List.suffix_rfl
  | cons c after =>
      rw [parseAlign] at hok
      -- where the alignment is looked for does not matter
      generalize (if codePointLength c < (c :: after).length then codePointLength c else 0) = p
        at hok
      split at hok
      next align =>
        split_ifs at hok
        · rw [next_eq_of_map hok]
          exact List.suffix_cons c after
        · obtain ⟨t, -, hok⟩ := bind_eq_ok hok
          rw [next_eq_of_map hok]
          exact List.drop_suffix _ _
      next =>
        split at hok
        · rw [next_eq_of_map hok]
          exact List.suffix_cons c after
        · obtain ⟨-, rfl⟩ := Prod.mk.inj (Except.ok.inj hok)
          exact List.suffix_rfl

theorem parseNumber_leaves (event : ℕ → SpecEvent) : Leaves (parseNumber h event) := by
  intro s rest s' next hok
  rw [parseNumber] at hok
  split at hok
  next n tail heq =>
    rw [next_eq_of_map hok, ← (Prod.mk.inj heq).2]
    exact List.dropWhile_suffix _
  next => cases hok

theorem parseDynamic_leaves (event : ArgId → SpecEvent) : Leaves (parseDynamic h event) := by
  intro s rest s' next hok
  cases rest with
  | nil => cases hok
  | cons c after =>
      obtain ⟨⟨argId, tail⟩, hid, hok⟩ := bind_eq_ok hok
      obtain ⟨t, -, hok⟩ := bind_eq_ok hok
      cases tail with
      | nil => cases hok
      | cons d tail =>
          dsimp only at hok
          split_ifs at hok
          obtain ⟨-, rfl⟩ := Prod.mk.inj (Except.ok.inj hok)
          exact (List.suffix_cons d _).trans (parseArgId_suffix hid)

theorem parseSize_leaves (onFixed : ℕ → SpecEvent) (onDynamic : ArgId → SpecEvent) {s s' : σ}
    {rest next : Bytes} (hok : parseSize h onFixed onDynamic s rest = some (.ok (s', next))) :
    next <:+ rest := by
  cases rest with
  | nil => cases hok
  | cons c after =>
      rw [parseSize] at hok
      split_ifs at hok
      · exact parseNumber_leaves onFixed s _ s' next (Option.some.inj hok)
      · have hdynamic := parseDynamic_leaves onDynamic s _ s' next (Option.some.inj hok)
        exact hdynamic.trans (List.suffix_cons c after)

theorem parseWidth_leaves : Leaves (parseWidth h) := by
  intro s rest s' next hok
  rw [parseWidth] at hok
  cases hsize : parseSize h .width .dynamicWidth s rest with
  | none =>
      rw [hsize] at hok
      obtain ⟨-, rfl⟩ := Prod.mk.inj (Except.ok.inj hok)
      exact List.suffix_rfl
  | some read =>
      rw [hsize, Option.getD_some] at hok
      exact parseSize_leaves .width .dynamicWidth (hok ▸ hsize)

theorem parsePrecision_leaves : Leaves (parsePrecision h) := by
  refine Leaves.andThen ?_ ?_
  · intro s rest s' next hok
    dsimp only at hok
    cases hsize : parseSize h .precision .dynamicPrecision s rest with
    | none =>
        rw [hsize] at hok
        cases hok
    | some read =>
        rw [hsize, Option.getD_some] at hok
        exact parseSize_leaves .precision .dynamicPrecision (hok ▸ hsize)
  · intro s rest s' next hok
    obtain rfl : next = rest := next_eq_of_map hok
    exact List.suffix_rfl

theorem parsePoint_leaves : Leaves (parsePoint h) := by
  intro s rest s' next hok
  cases rest with
  | nil =>
      obtain ⟨-, rfl⟩ := Prod.mk.inj (Except.ok.inj hok)
      exact List.suffix_rfl
  | cons c after =>
      rw [parsePoint] at hok
      split_ifs at hok
      · exact (parsePrecision_leaves s after s' next hok).trans (List.suffix_cons c after)
      · obtain ⟨-, rfl⟩ := Prod.mk.inj (Except.ok.inj hok)
        exact List.suffix_rfl

theorem parseFormatSpecs_leaves : Leaves (parseFormatSpecs h) := by
  intro s rest s' next hok
  rw [parseFormatSpecs_eq_inOrder] at hok
  have hleaves : Leaves (parseInOrder h) :=
    parseAlign_leaves.andThen <| (parseFlag_leaves _).andThen <| (parseFlag_leaves _).andThen <|
      (parseFlag_leaves _).andThen <| parseWidth_leaves.andThen <| parsePoint_leaves.andThen <|
        (parseFlag_leaves _).andThen (parseFlag_leaves _)
  exact hleaves s rest s' next hok

end Suffix

end Structlog.Fmt
