import Structlog.JsonLexer
import Structlog.Lib.JsonSyntax

/-!
# Reading strings

What the lexer does is told in terms of the bytes that are left: `Ready` before a
byte is read, and `Read` behind one.  `get` leads from the one to the other (`Ready.get`) and
`unget` back (`Read.unget`); nothing else changes what is left, so that these two and
`Ready.cons_of_current` are all that the proofs about the scanner know of the input.

`scan_string` reads exactly the literals, and leaves their meaning in the buffer
(`scanString_of_literal`, `literal_of_scanString`).  A literal is made of pieces, and each
turn of the loop scans one.  `Scanned` says what a turn has done, and for each kind of piece
there are two lemmas, that it is scanned and that what was scanned is one:

* the hexadecimal digits of an escape (`getCodepoint_of_codeUnit`,
  `codeUnit_of_getCodepoint`), and the bytes that are added for a code point, which are its
  encoding (`codepointBytes_eq`);
* a character, whose later bytes are checked against the ranges that the first one gives
  (`scanned_plain`, `plain_of_scanned`); `laterRanges` is the table, and
  `character_of_laterRanges` and `laterRanges_of_character` say that it is the one of UTF-8;
* an escape, short or of one or two code units (`scanned_escape`, `escape_of_scanned`).

`scanned_piece` and `piece_of_scanned` are the turn, and the two inductions, on the pieces of
the literal and on the turns of the loop, are `scanStringLoop_of_literal` and
`literal_of_scanStringLoop`.
-/

namespace Structlog.Json.Lexer

open Lib Lib.Utf8 Lib.JsonSyntax

/-! ## Reading bytes -/

/-- `text` is left to read, of an input of `size` bytes. -/
structure Ready (size : ℕ) (l : Lexer) (text : Bytes) : Prop where
  pending : l.pending = text
  ended : l.nextUnget = true → l.current = none → l.ia = []
  counted : size ≤ l.position.charsReadTotal + text.length

/-- `c` was read last, and `rest` is left. -/
structure Read (size : ℕ) (l : Lexer) (c : Option UInt8) (rest : Bytes) : Prop where
  current : l.current = c
  fresh : l.nextUnget = false
  ia : l.ia = rest
  ended : c = none → rest = [] ∧ size < l.position.charsReadTotal
  counted : size ≤ l.position.charsReadTotal + rest.length

@[simp] theorem get_tokenBuffer (l : Lexer) : l.get.tokenBuffer = l.tokenBuffer := rfl

@[simp] theorem unget_tokenBuffer (l : Lexer) : l.unget.tokenBuffer = l.tokenBuffer := rfl

theorem get_charsReadTotal (l : Lexer) :
    l.get.position.charsReadTotal = l.position.charsReadTotal + 1 := by
  rw [Lexer.get, Position.afterGet]
  split_ifs <;> rfl

theorem unget_charsReadTotal (l : Lexer) :
    l.unget.position.charsReadTotal = l.position.charsReadTotal - 1 := by
  rw [Lexer.unget, Position.afterUnget]
  split_ifs <;> rfl

theorem ready_new (input : Bytes) : (new input).Ready input.length input :=
  ⟨rfl, by simp [new], by simp⟩

variable {size : ℕ}

theorem Ready.turns {l : Lexer} {text : Bytes} (h : l.Ready size text) :
    l.turns = text.length + 1 := by
  rw [Lexer.turns, h.pending]

theorem Ready.get {l : Lexer} {text : Bytes} (h : l.Ready size text) :
    l.get.Read size text.head? text.tail := by
  obtain ⟨hpending, hended, hcounted⟩ := h
  have htotal := l.get_charsReadTotal
  have hlength := List.length_tail (l := text)
  unfold Lexer.pending at hpending
  refine ⟨?_, rfl, ?_, fun hnone => ?_, by omega⟩
  · -- the byte that was given back, or the next one of the input
    cases hunget : l.nextUnget with
    | false => simpa [Lexer.get, hunget] using congrArg List.head? hpending
    | true =>
        cases hc : l.current with
        | none => simp [Lexer.get, hunget, hc, ← hpending, hended hunget hc]
        | some c => simpa [Lexer.get, hunget, hc] using congrArg List.head? hpending
  · cases hunget : l.nextUnget with
    | false => simpa [Lexer.get, hunget] using congrArg List.tail hpending
    | true =>
        cases hc : l.current with
        | none =>
            simpa [Lexer.get, hunget, hc, hended hunget hc] using congrArg List.tail hpending
        | some c => simpa [Lexer.get, hunget, hc] using congrArg List.tail hpending
  · obtain rfl := List.head?_eq_none_iff.mp hnone
    exact ⟨rfl, by rw [List.length_nil] at hcounted; omega⟩

theorem Read.ready {l : Lexer} {c : Option UInt8} {rest : Bytes} (h : l.Read size c rest) :
    l.Ready size rest := by
  refine ⟨?_, fun hunget => ?_, h.counted⟩
  · simp [pending, h.fresh, h.ia]
  · rw [h.fresh] at hunget
    cases hunget

theorem Read.unget {l : Lexer} {c : Option UInt8} {rest : Bytes} (h : l.Read size c rest) :
    l.unget.Ready size (c.toList ++ rest) := by
  have htotal := l.unget_charsReadTotal
  refine ⟨?_, fun _ hnone => ?_, ?_⟩
  · simp [pending, Lexer.unget, h.current, h.ia]
  · exact h.ia.trans (h.ended (h.current.symm.trans hnone)).1
  · have hcounted := h.counted
    rw [List.length_append]
    cases hc : c with
    | none =>
        have := (h.ended hc).2
        rw [(h.ended hc).1, List.length_nil]
        omega
    | some c =>
        rw [Option.toList_some, List.length_singleton]
        omega

/-- Only the input counts. -/
theorem Read.congr {l l' : Lexer} {c : Option UInt8} {rest : Bytes} (h : l.Read size c rest)
    (hcurrent : l'.current = l.current) (hunget : l'.nextUnget = l.nextUnget)
    (hia : l'.ia = l.ia) (hposition : l'.position = l.position) : l'.Read size c rest :=
  ⟨hcurrent.trans h.current, hunget.trans h.fresh, hia.trans h.ia, hposition ▸ h.ended,
    hposition ▸ h.counted⟩

theorem Read.add {l : Lexer} {c : Option UInt8} {rest : Bytes} (h : l.Read size c rest)
    (b : UInt8) : (l.add b).Read size c rest := h.congr rfl rfl rfl rfl

theorem Read.reset {l : Lexer} {c : Option UInt8} {rest : Bytes} (h : l.Read size c rest) :
    l.reset.Read size c rest := h.congr rfl rfl rfl rfl

theorem Ready.get_cons {l : Lexer} {c : UInt8} {rest : Bytes} (h : l.Ready size (c :: rest)) :
    l.get.Read size (some c) rest := h.get

theorem Ready.get_nil {l : Lexer} (h : l.Ready size []) : l.get.Read size none [] := h.get

/-- A byte that was read was left before. -/
theorem Ready.cons_of_current {l : Lexer} {text : Bytes} {c : UInt8} (h : l.Ready size text)
    (hc : l.get.current = some c) : ∃ rest, text = c :: rest ∧ l.get.Read size (some c) rest := by
  have hread := h.get
  rw [hread.current] at hc
  obtain ⟨rest, rfl⟩ := List.head?_eq_some_iff.mp hc
  exact ⟨rest, rfl, hread⟩

/-! ## What a part of a string scans -/

/-- The scan succeeded on `source`, left `rest` and added `meaning`. -/
structure Scanned (size : ℕ) (before : Lexer) (result : Bool × Lexer) (rest meaning : Bytes) :
    Prop where
  ok : result.1 = true
  ready : result.2.Ready size rest
  added : result.2.tokenBuffer = before.tokenBuffer ++ meaning

theorem Read.scanned_add {l : Lexer} {c : Option UInt8} {rest : Bytes} (h : l.Read size c rest)
    {before : Lexer} (hbuffer : l.tokenBuffer = before.tokenBuffer) (b : UInt8) :
    Scanned size before (true, l.add b) rest [b] :=
  ⟨rfl, (h.add b).ready, congrArg (· ++ [b]) hbuffer⟩

/-! ### Code points -/

theorem getCodepointFrom_cons {l : Lexer} {c : UInt8} (hc : l.get.current = some c)
    (factor codepoint : ℕ) (rest : List ℕ) :
    getCodepointFrom (factor :: rest) codepoint l =
      match hexValue c with
      | some value => getCodepointFrom rest (codepoint + value <<< factor) l.get
      | none => (none, l.get) := by
  rw [getCodepointFrom]
  simp only [hc, hexValue]
  split_ifs <;> rfl

theorem getCodepointFrom_end {l : Lexer} (hc : l.get.current = none) (factor codepoint : ℕ)
    (rest : List ℕ) : getCodepointFrom (factor :: rest) codepoint l = (none, l.get) := by
  rw [getCodepointFrom]
  simp only [hc]

/-- One digit of a code point that was found. -/
theorem digit_of_getCodepointFrom {l l' : Lexer} {text : Bytes} (h : l.Ready size text)
    {factor codepoint n : ℕ} {rest : List ℕ}
    (hfound : getCodepointFrom (factor :: rest) codepoint l = (some n, l')) :
    ∃ c more value, text = c :: more ∧ hexValue c = some value ∧ l.get.Ready size more ∧
      getCodepointFrom rest (codepoint + value <<< factor) l.get = (some n, l') := by
  cases hc : l.get.current with
  | none =>
      rw [getCodepointFrom_end hc] at hfound
      cases hfound
  | some c =>
      obtain ⟨more, rfl, hread⟩ := h.cons_of_current hc
      rw [getCodepointFrom_cons hc] at hfound
      cases hvalue : hexValue c with
      | none =>
          rw [hvalue] at hfound
          cases hfound
      | some value =>
          rw [hvalue] at hfound
          exact ⟨c, more, value, rfl, hvalue, hread.ready, hfound⟩

theorem codeUnit_of_getCodepoint {l l' : Lexer} {text : Bytes} (h : l.Ready size text) {n : ℕ}
    (hfound : getCodepoint l = (some n, l')) :
    ∃ digits rest, text = digits ++ rest ∧ CodeUnit digits n ∧ l'.Ready size rest ∧
      l'.tokenBuffer = l.tokenBuffer := by
  -- four digits, of which each is found where the one before it left off
  obtain ⟨a, text, i, rfl, ha, h, hfound⟩ := digit_of_getCodepointFrom h hfound
  obtain ⟨b, text, j, rfl, hb, h, hfound⟩ := digit_of_getCodepointFrom h hfound
  obtain ⟨c, text, k, rfl, hc, h, hfound⟩ := digit_of_getCodepointFrom h hfound
  obtain ⟨d, text, m, rfl, hd, h, hfound⟩ := digit_of_getCodepointFrom h hfound
  rw [getCodepointFrom, Prod.mk.injEq, Option.some.injEq] at hfound
  obtain ⟨rfl, rfl⟩ := hfound
  refine ⟨[a, b, c, d], text, rfl, ⟨a, b, c, d, i, j, k, m, rfl, ha, hb, hc, hd, ?_⟩, h, by simp⟩
  simp only [Nat.shiftLeft_eq]
  omega

theorem getCodepoint_of_codeUnit {l : Lexer} {digits rest : Bytes}
    (h : l.Ready size (digits ++ rest)) {n : ℕ} (hunit : CodeUnit digits n) :
    ∃ l', getCodepoint l = (some n, l') ∧ l'.Ready size rest ∧ l'.tokenBuffer = l.tokenBuffer := by
  obtain ⟨a, b, c, d, i, j, k, m, rfl, ha, hb, hc, hd, rfl⟩ := hunit
  have h₁ := h.get_cons
  have h₂ := h₁.ready.get_cons
  have h₃ := h₂.ready.get_cons
  have h₄ := h₃.ready.get_cons
  refine ⟨l.get.get.get.get, ?_, h₄.ready, by simp⟩
  rw [getCodepoint, getCodepointFrom_cons h₁.current, ha]
  dsimp only
  rw [getCodepointFrom_cons h₂.current, hb]
  dsimp only
  rw [getCodepointFrom_cons h₃.current, hc]
  dsimp only
  rw [getCodepointFrom_cons h₄.current, hd]
  dsimp only
  rw [getCodepointFrom]
  simp only [Nat.shiftLeft_eq, Prod.mk.injEq, Option.some.injEq, and_true]
  omega

theorem mark_or {shift mark bits : ℕ} (h : bits < 2 ^ shift) :
    2 ^ shift * mark ||| bits = 2 ^ shift * mark + bits :=
  (Nat.two_pow_add_eq_or_of_lt h mark).symm

theorem tail_or (n : ℕ) : 0x80 ||| n &&& 0x3F = 0x80 + n % 64 := by
  rw [Nat.and_two_pow_sub_one_eq_mod n 6]
  exact @mark_or 6 2 _ (Nat.mod_lt n (by decide))

/-- The masks and shifts write a code point as UTF-8. -/
theorem codepointBytes_eq {n : ℕ} (h : n ≤ 0x10FFFF) : codepointBytes n = encode n := by
  -- the mark of the first byte and the bits of the code point do not overlap
  have htwo (hn : n ≤ 0x7FF) : 0xC0 ||| n / 64 = 0xC0 + n / 64 :=
    @mark_or 6 3 _ (by omega)
  have hthree (hn : n ≤ 0xFFFF) : 0xE0 ||| n / 4096 = 0xE0 + n / 4096 :=
    @mark_or 5 7 _ (by omega)
  have hfour : 0xF0 ||| n / 262144 = 0xF0 + n / 262144 :=
    @mark_or 4 15 _ (by omega)
  unfold codepointBytes encode
  simp only [tail_or, Nat.shiftRight_eq_div_pow, Nat.reducePow, hfour]
  split_ifs with h₁ h₂ h₃
  · rfl
  · rw [htwo h₂]
  · rw [hthree h₃]
  · rfl

/-! ### Characters -/

/-- The ranges of the later bytes of a character, by its first byte. -/
def laterRanges (c : UInt8) : Option (List (UInt8 × UInt8)) :=
  if c ≤ 0x7F then some []
  else if 0xC2 ≤ c ∧ c ≤ 0xDF then some [(0x80, 0xBF)]
  else if c = 0xE0 then some [(0xA0, 0xBF), (0x80, 0xBF)]
  else if 0xE1 ≤ c ∧ c ≤ 0xEC ∨ 0xEE ≤ c ∧ c ≤ 0xEF then some [(0x80, 0xBF), (0x80, 0xBF)]
  else if c = 0xED then some [(0x80, 0x9F), (0x80, 0xBF)]
  else if c = 0xF0 then some [(0x90, 0xBF), (0x80, 0xBF), (0x80, 0xBF)]
  else if 0xF1 ≤ c ∧ c ≤ 0xF3 then some [(0x80, 0xBF), (0x80, 0xBF), (0x80, 0xBF)]
  else if c = 0xF4 then some [(0x80, 0x8F), (0x80, 0xBF), (0x80, 0xBF)]
  else none

/-- Each byte in its range. -/
def InRanges (ranges : List (UInt8 × UInt8)) (bytes : Bytes) : Prop :=
  List.Forall₂ (fun range b => range.1 ≤ b ∧ b ≤ range.2) ranges bytes

theorem character_of_laterRanges {c : UInt8} {bytes : Bytes} {ranges : List (UInt8 × UInt8)}
    (h : laterRanges c = some ranges) (hbytes : InRanges ranges bytes) :
    Character (c :: bytes) := by
  unfold laterRanges at h
  split_ifs at h with h₁ h₂ h₃ h₄ h₅ h₆ h₇ h₈ <;> obtain rfl := Option.some.inj h
  · cases hbytes
    exact .one h₁
  · obtain _ | ⟨hb, _ | _⟩ := hbytes
    exact .two h₂ hb
  · obtain _ | ⟨hb, _ | ⟨hd, _ | _⟩⟩ := hbytes
    exact .three (.inl ⟨h₃, hb⟩) hd
  · obtain _ | ⟨hb, _ | ⟨hd, _ | _⟩⟩ := hbytes
    refine .three ?_ hd
    exact h₄.elim (fun h => .inr (.inl ⟨h.1, h.2, hb⟩)) fun h => .inr (.inr (.inr ⟨h.1, h.2, hb⟩))
  · obtain _ | ⟨hb, _ | ⟨hd, _ | _⟩⟩ := hbytes
    exact .three (.inr (.inr (.inl ⟨h₅, hb⟩))) hd
  · obtain _ | ⟨hb, _ | ⟨hd, _ | ⟨he, _ | _⟩⟩⟩ := hbytes
    exact .four (.inl ⟨h₆, hb⟩) hd he
  · obtain _ | ⟨hb, _ | ⟨hd, _ | ⟨he, _ | _⟩⟩⟩ := hbytes
    exact .four (.inr (.inl ⟨h₇.1, h₇.2, hb⟩)) hd he
  · obtain _ | ⟨hb, _ | ⟨hd, _ | ⟨he, _ | _⟩⟩⟩ := hbytes
    exact .four (.inr (.inr ⟨h₈, hb⟩)) hd he

theorem laterRanges_two {c : UInt8} (h : 0xC2 ≤ c ∧ c ≤ 0xDF) :
    laterRanges c = some [(0x80, 0xBF)] := by
  simp only [laterRanges, UInt8.le_iff_toNat_le, UInt8.reduceToNat] at h ⊢
  rw [if_neg (by omega), if_pos h]

theorem laterRanges_three {c : UInt8}
    (h : 0xE1 ≤ c ∧ c ≤ 0xEC ∨ 0xEE ≤ c ∧ c ≤ 0xEF) :
    laterRanges c = some [(0x80, 0xBF), (0x80, 0xBF)] := by
  simp only [laterRanges, UInt8.le_iff_toNat_le, UInt8.reduceToNat, ← UInt8.toNat_inj] at h ⊢
  rw [if_neg (by omega), if_neg (by omega), if_neg (by omega), if_pos h]

theorem laterRanges_four {c : UInt8} (h : 0xF1 ≤ c ∧ c ≤ 0xF3) :
    laterRanges c = some [(0x80, 0xBF), (0x80, 0xBF), (0x80, 0xBF)] := by
  simp only [laterRanges, UInt8.le_iff_toNat_le, UInt8.reduceToNat, ← UInt8.toNat_inj] at h ⊢
  rw [if_neg (by omega), if_neg (by omega), if_neg (by omega), if_neg (by omega),
    if_neg (by omega), if_neg (by omega), if_pos h]

theorem laterRanges_of_character {c : UInt8} {bytes : Bytes} (h : Character (c :: bytes)) :
    ∃ ranges, laterRanges c = some ranges ∧ InRanges ranges bytes := by
  cases h with
  | one ha => exact ⟨[], if_pos ha, .nil⟩
  | two ha hb => exact ⟨_, laterRanges_two ha, .cons hb .nil⟩
  | three hab hd =>
      rcases hab with ⟨rfl, hb⟩ | ⟨hlow, hhigh, hb⟩ | ⟨rfl, hb⟩ | ⟨hlow, hhigh, hb⟩
      · exact ⟨_, rfl, .cons hb (.cons hd .nil)⟩
      · exact ⟨_, laterRanges_three (.inl ⟨hlow, hhigh⟩), .cons hb (.cons hd .nil)⟩
      · exact ⟨_, rfl, .cons hb (.cons hd .nil)⟩
      · exact ⟨_, laterRanges_three (.inr ⟨hlow, hhigh⟩), .cons hb (.cons hd .nil)⟩
  | four hab hd he =>
      rcases hab with ⟨rfl, hb⟩ | ⟨hlow, hhigh, hb⟩ | ⟨rfl, hb⟩
      · exact ⟨_, rfl, .cons hb (.cons hd (.cons he .nil))⟩
      · exact ⟨_, laterRanges_four ⟨hlow, hhigh⟩, .cons hb (.cons hd (.cons he .nil))⟩
      · exact ⟨_, rfl, .cons hb (.cons hd (.cons he .nil))⟩

theorem nextBytesInRange_cons {l : Lexer} {c : UInt8} (hc : l.get.current = some c)
    (range : UInt8 × UInt8) (ranges : List (UInt8 × UInt8)) :
    nextBytesInRange (range :: ranges) l =
      if range.1 ≤ c ∧ c ≤ range.2 then nextBytesInRange ranges (l.get.add c)
      else (false, l.get.fail (ascii "invalid string: ill-formed UTF-8 byte")) := by
  obtain ⟨low, high⟩ := range
  rw [nextBytesInRange]
  simp only [hc]

theorem nextBytesInRange_end {l : Lexer} (hc : l.get.current = none) (range : UInt8 × UInt8)
    (ranges : List (UInt8 × UInt8)) : (nextBytesInRange (range :: ranges) l).1 = false := by
  obtain ⟨low, high⟩ := range
  rw [nextBytesInRange]
  simp only [hc]

theorem scanned_of_inRanges {ranges : List (UInt8 × UInt8)} {bytes rest : Bytes}
    (hbytes : InRanges ranges bytes) {l : Lexer} (h : l.Ready size (bytes ++ rest)) :
    Scanned size l (nextBytesInRange ranges l) rest bytes := by
  -- on the ranges; each byte is added as soon as it is found in its own
  induction hbytes generalizing l with
  | nil => exact ⟨rfl, h, (List.append_nil _).symm⟩
  | @cons range b ranges bytes hb _ ih =>
      have hread := h.get_cons
      rw [nextBytesInRange_cons hread.current, if_pos hb]
      obtain ⟨hok, hready, hadded⟩ := ih (hread.add b).ready
      refine ⟨hok, hready, hadded.trans ?_⟩
      simp [add]

theorem inRanges_of_scanned {ranges : List (UInt8 × UInt8)} {l : Lexer} {text : Bytes}
    (h : l.Ready size text) (hok : (nextBytesInRange ranges l).1 = true) :
    ∃ bytes rest, text = bytes ++ rest ∧ InRanges ranges bytes ∧
      Scanned size l (nextBytesInRange ranges l) rest bytes := by
  induction ranges generalizing l text with
  | nil => exact ⟨[], text, rfl, .nil, rfl, h, (List.append_nil _).symm⟩
  | cons range ranges ih =>
      cases hc : l.get.current with
      | none =>
          rw [nextBytesInRange_end hc] at hok
          cases hok
      | some c =>
          obtain ⟨more, rfl, hread⟩ := h.cons_of_current hc
          rw [nextBytesInRange_cons hc] at hok ⊢
          split_ifs at hok ⊢ with hb
          obtain ⟨bytes, rest, rfl, hbytes, -, hready, hadded⟩ := ih (hread.add c).ready hok
          refine ⟨c :: bytes, rest, rfl, .cons hb hbytes, hok, hready, hadded.trans ?_⟩
          simp [add]

/-- The switch of `scan_string` by the table. -/
theorem scanPlain_eq {c : UInt8} (hcontrol : 0x20 ≤ c) (l : Lexer) :
    scanPlain c l =
      match laterRanges c with
      | some ranges => nextBytesInRange ranges (l.add c)
      | none => (false, l.fail (ascii "invalid string: ill-formed UTF-8 byte")) := by
  have hnot : ¬ c ≤ 0x1F := by
    simp only [UInt8.le_iff_toNat_le, UInt8.reduceToNat] at hcontrol ⊢
    omega
  unfold scanPlain laterRanges
  rw [if_neg hnot]
  split_ifs <;> rfl

theorem scanned_plain {c : UInt8} {bytes rest : Bytes} {before l : Lexer}
    (hchar : Character (c :: bytes)) (hcontrol : 0x20 ≤ c)
    (h : l.Read size (some c) (bytes ++ rest)) (hbuffer : l.tokenBuffer = before.tokenBuffer) :
    Scanned size before (scanPlain c l) rest (c :: bytes) := by
  obtain ⟨ranges, hranges, hbytes⟩ := laterRanges_of_character hchar
  rw [scanPlain_eq hcontrol, hranges]
  obtain ⟨hok, hready, hadded⟩ := scanned_of_inRanges hbytes (h.add c).ready
  exact ⟨hok, hready, hadded.trans (by simp [add, hbuffer])⟩

theorem plain_of_scanned {c : UInt8} {text : Bytes} {before l : Lexer}
    (h : l.Read size (some c) text) (hbuffer : l.tokenBuffer = before.tokenBuffer)
    (hok : (scanPlain c l).1 = true) :
    ∃ bytes rest, text = bytes ++ rest ∧ Character (c :: bytes) ∧ 0x20 ≤ c ∧
      Scanned size before (scanPlain c l) rest (c :: bytes) := by
  by_cases hcontrol : 0x20 ≤ c
  · rw [scanPlain_eq hcontrol] at hok ⊢
    cases hranges : laterRanges c with
    | none =>
        rw [hranges] at hok
        cases hok
    | some ranges =>
        rw [hranges] at hok
        obtain ⟨bytes, rest, rfl, hbytes, -, hready, hadded⟩ :=
          inRanges_of_scanned (h.add c).ready hok
        exact ⟨bytes, rest, rfl, character_of_laterRanges hranges hbytes, hcontrol, hok, hready,
          hadded.trans (by simp [add, hbuffer])⟩
  · have hbelow : c ≤ 0x1F := by
      simp only [UInt8.le_iff_toNat_le, UInt8.reduceToNat] at hcontrol ⊢
      omega
    rw [scanPlain, if_pos hbelow] at hok
    cases hok

/-! ### Escapes -/

theorem surrogates_eq {high low : ℕ} (hhigh : 0xD800 ≤ high) (hlow : 0xDC00 ≤ low) :
    high <<< 10 + low - 0x35FDC00 = 0x10000 + (high - 0xD800) * 0x400 + (low - 0xDC00) := by
  rw [Nat.shiftLeft_eq]
  omega

theorem scanned_unicode {l before : Lexer} {digits rest : Bytes} {n : ℕ}
    (h : l.Ready size (digits ++ rest)) (hbuffer : l.tokenBuffer = before.tokenBuffer)
    (hunit : CodeUnit digits n) (hsurrogate : ¬ (0xD800 ≤ n ∧ n ≤ 0xDFFF)) :
    Scanned size before (scanUnicode l) rest (encode n) := by
  obtain ⟨l', hfound, hready, hsame⟩ := getCodepoint_of_codeUnit h hunit
  have hlt := hunit.lt
  rw [scanUnicode, hfound]
  dsimp only
  rw [if_neg (by omega), if_neg (by omega), codepointBytes_eq (by omega)]
  exact ⟨rfl, ⟨hready.pending, hready.ended, hready.counted⟩, by simp [addAll, hsame, hbuffer]⟩

theorem scanned_pair {l before : Lexer} {first second rest : Bytes} {high low : ℕ}
    (h : l.Ready size (first ++ 0x5C :: 0x75 :: (second ++ rest)))
    (hbuffer : l.tokenBuffer = before.tokenBuffer)
    (h₁ : CodeUnit first high) (hhigh : 0xD800 ≤ high ∧ high ≤ 0xDBFF)
    (h₂ : CodeUnit second low) (hlow : 0xDC00 ≤ low ∧ low ≤ 0xDFFF) :
    Scanned size before (scanUnicode l) rest
      (encode (0x10000 + (high - 0xD800) * 0x400 + (low - 0xDC00))) := by
  obtain ⟨l₁, hfirst, hready₁, hsame₁⟩ := getCodepoint_of_codeUnit h h₁
  have hslash := hready₁.get_cons
  have hletter := hslash.ready.get_cons
  obtain ⟨l₂, hsecond, hready₂, hsame₂⟩ := getCodepoint_of_codeUnit hletter.ready h₂
  rw [scanUnicode, hfirst]
  dsimp only
  rw [if_pos hhigh, scanLowSurrogate]
  dsimp only
  rw [if_pos hslash.current, if_pos hletter.current, hsecond]
  dsimp only
  rw [if_pos hlow, surrogates_eq hhigh.1 hlow.1, codepointBytes_eq (by omega)]
  exact ⟨rfl, ⟨hready₂.pending, hready₂.ended, hready₂.counted⟩,
    by simp [addAll, hsame₂, hsame₁, hbuffer]⟩

/-- The unicode escapes that `scan_string` takes. -/
theorem piece_of_scanUnicode {l before : Lexer} {text : Bytes} (h : l.Ready size text)
    (hbuffer : l.tokenBuffer = before.tokenBuffer) (hok : (scanUnicode l).1 = true) :
    ∃ digits rest meaning, text = digits ++ rest ∧ Piece (0x5C :: 0x75 :: digits) meaning ∧
      Scanned size before (scanUnicode l) rest meaning := by
  cases hfound : getCodepoint l with
  | mk found l₁ =>
      rw [scanUnicode, hfound] at hok
      cases found with
      | none => cases hok
      | some n =>
          obtain ⟨first, rest, rfl, h₁, hready₁, -⟩ := codeUnit_of_getCodepoint h hfound
          dsimp only at hok
          split_ifs at hok with hhigh hlow
          · -- the second half of a pair
            rw [scanLowSurrogate] at hok
            dsimp only at hok
            split_ifs at hok with hslash hletter
            obtain ⟨rest, rfl, hread⟩ := hready₁.cons_of_current hslash
            obtain ⟨rest, rfl, hread'⟩ := hread.ready.cons_of_current hletter
            -- `hready₁` is behind the first half, `hread'` behind the `\u` of the second
            cases hsecond : getCodepoint l₁.get.get with
            | mk found l₂ =>
                rw [hsecond] at hok
                cases found with
                | none => cases hok
                | some low =>
                    obtain ⟨second, rest, rfl, h₂, -⟩ :=
                      codeUnit_of_getCodepoint hread'.ready hsecond
                    dsimp only at hok
                    split_ifs at hok with hlow
                    exact ⟨first ++ 0x5C :: 0x75 :: second, rest, _, by simp,
                      .pair h₁ hhigh h₂ hlow, scanned_pair h hbuffer h₁ hhigh h₂ hlow⟩
          · exact ⟨first, rest, _, rfl, .unicode h₁ (by omega),
              scanned_unicode h hbuffer h₁ (by omega)⟩

theorem scanEscape_short {l : Lexer} {letter b : UInt8} (hc : l.get.current = some letter)
    (h : shortEscape letter = some b) : scanEscape l = (true, l.get.add b) := by
  unfold shortEscape at h
  rw [scanEscape]
  simp only [hc, Option.some.injEq]
  split_ifs at h ⊢ <;> obtain rfl := Option.some.inj h <;> rfl

theorem scanEscape_other {l : Lexer} {letter : UInt8} (hc : l.get.current = some letter)
    (h : shortEscape letter = none) :
    scanEscape l =
      if letter = 0x75 then scanUnicode l.get
      else (false, l.get.fail (ascii "invalid string: forbidden character after backslash")) := by
  unfold shortEscape at h
  rw [scanEscape]
  simp only [hc, Option.some.injEq]
  split_ifs at h ⊢ <;> rfl

/-- A piece that starts with a backslash. -/
theorem scanned_escape {l before : Lexer} {tail meaning rest : Bytes}
    (hpiece : Piece (0x5C :: tail) meaning) (h : l.Ready size (tail ++ rest))
    (hbuffer : l.tokenBuffer = before.tokenBuffer) :
    Scanned size before (scanEscape l) rest meaning := by
  -- a character that stands for itself does not begin with a backslash
  generalize hsource : 0x5C :: tail = source at hpiece
  cases hpiece with
  | plain hc hplain => exact absurd rfl (hplain 0x5C (by simp [← hsource])).2.2
  | short hb =>
      obtain ⟨-, rfl⟩ := List.cons_eq_cons.mp hsource
      have hread := h.get_cons
      rw [scanEscape_short hread.current hb]
      exact hread.scanned_add hbuffer _
  | unicode hunit hsurrogate =>
      obtain ⟨-, rfl⟩ := List.cons_eq_cons.mp hsource
      have hread := h.get_cons
      rw [scanEscape_other hread.current rfl, if_pos rfl]
      exact scanned_unicode hread.ready hbuffer hunit hsurrogate
  | pair h₁ hhigh h₂ hlow =>
      obtain ⟨-, rfl⟩ := List.cons_eq_cons.mp hsource
      have hread := h.get_cons
      rw [scanEscape_other hread.current rfl, if_pos rfl]
      refine scanned_pair ?_ hbuffer h₁ hhigh h₂ hlow
      simpa using hread.ready

theorem escape_of_scanned {l before : Lexer} {text : Bytes} (h : l.Ready size text)
    (hbuffer : l.tokenBuffer = before.tokenBuffer) (hok : (scanEscape l).1 = true) :
    ∃ tail rest meaning, text = tail ++ rest ∧ Piece (0x5C :: tail) meaning ∧
      Scanned size before (scanEscape l) rest meaning := by
  cases hc : l.get.current with
  | none =>
      rw [scanEscape] at hok
      simp only [hc, reduceCtorEq, if_false, Bool.false_eq_true] at hok
  | some letter =>
      obtain ⟨more, rfl, hread⟩ := h.cons_of_current hc
      cases hb : shortEscape letter with
      | some b =>
          rw [scanEscape_short hc hb]
          exact ⟨[letter], more, [b], rfl, .short hb, hread.scanned_add hbuffer b⟩
      | none =>
          rw [scanEscape_other hc hb] at hok ⊢
          split_ifs at hok ⊢ with hu
          subst hu
          obtain ⟨digits, rest, meaning, rfl, hpiece, hscanned⟩ :=
            piece_of_scanUnicode hread.ready hbuffer hok
          exact ⟨0x75 :: digits, rest, meaning, rfl, hpiece, hscanned⟩

/-! ### The loop of `scan_string` -/

/-- What a turn scans that has not met the quote. -/
def scanPiece (c : UInt8) (l : Lexer) : Bool × Lexer :=
  if c = 0x5C then scanEscape l else scanPlain c l

theorem scanStringLoop_cons {l : Lexer} {c : UInt8} (hc : l.get.current = some c) (n : ℕ) :
    scanStringLoop (n + 1) l =
      if c = 0x22 then (.valueString, l.get)
      else if (scanPiece c l.get).1 = true then scanStringLoop n (scanPiece c l.get).2
      else (.parseError, (scanPiece c l.get).2) := by
  rw [scanStringLoop]
  simp only [hc]
  rfl

theorem scanned_piece {piece meaning rest : Bytes} (hpiece : Piece piece meaning) {l : Lexer}
    (h : l.Ready size (piece ++ rest)) :
    ∃ c, l.get.current = some c ∧ c ≠ 0x22 ∧
      Scanned size l (scanPiece c l.get) rest meaning := by
  cases piece with
  | nil => exact absurd rfl hpiece.ne_nil
  | cons c tail =>
      have hread := h.get_cons
      by_cases hslash : c = 0x5C
      · subst hslash
        refine ⟨0x5C, hread.current, by decide, ?_⟩
        rw [scanPiece, if_pos rfl]
        exact scanned_escape hpiece hread.ready rfl
      · cases hpiece with
        | plain hchar hplain =>
            obtain ⟨hcontrol, hquote, -⟩ := hplain c List.mem_cons_self
            refine ⟨c, hread.current, hquote, ?_⟩
            rw [scanPiece, if_neg hslash]
            exact scanned_plain hchar hcontrol hread rfl
        | short _ => exact absurd rfl hslash
        | unicode _ _ => exact absurd rfl hslash
        | pair _ _ _ _ => exact absurd rfl hslash

theorem leadThree_second {a b : UInt8} (h : LeadThree a b) : 0x80 ≤ b := by
  rcases h with ⟨-, hb, -⟩ | ⟨-, -, hb⟩ | ⟨-, hb, -⟩ | ⟨-, -, hb⟩
  · exact UInt8.le_trans (by decide) hb
  · exact hb.1
  · exact hb
  · exact hb.1

theorem leadFour_second {a b : UInt8} (h : LeadFour a b) : 0x80 ≤ b := by
  rcases h with ⟨-, hb, -⟩ | ⟨-, -, hb⟩ | ⟨-, hb, -⟩
  · exact UInt8.le_trans (by decide) hb
  · exact hb.1
  · exact hb

/-- The later bytes of a character are none of those that a literal treats apart. -/
theorem plain_bytes {c : UInt8} {bytes : Bytes} (hchar : Character (c :: bytes))
    (hc : 0x20 ≤ c ∧ c ≠ 0x22 ∧ c ≠ 0x5C) : ∀ b ∈ c :: bytes, 0x20 ≤ b ∧ b ≠ 0x22 ∧ b ≠ 0x5C := by
  have hhigh {b : UInt8} (hb : 0x80 ≤ b) : 0x20 ≤ b ∧ b ≠ 0x22 ∧ b ≠ 0x5C := by
    refine ⟨UInt8.le_trans (by decide) hb, ?_, ?_⟩ <;> rintro rfl <;> exact absurd hb (by decide)
  cases hchar with
  | one _ => simpa using hc
  | two _ hb => exact List.forall_mem_cons.mpr ⟨hc, by simpa using hhigh hb.1⟩
  | three hab hd =>
      exact List.forall_mem_cons.mpr ⟨hc, List.forall_mem_cons.mpr
        ⟨hhigh (leadThree_second hab), by simpa using hhigh hd.1⟩⟩
  | four hab hd he =>
      exact List.forall_mem_cons.mpr ⟨hc, List.forall_mem_cons.mpr ⟨hhigh (leadFour_second hab),
        List.forall_mem_cons.mpr ⟨hhigh hd.1, by simpa using hhigh he.1⟩⟩⟩

theorem piece_of_scanned {l : Lexer} {c : UInt8} {more : Bytes} (h : l.get.Read size (some c) more)
    (hquote : c ≠ 0x22) (hok : (scanPiece c l.get).1 = true) :
    ∃ tail rest meaning, more = tail ++ rest ∧ Piece (c :: tail) meaning ∧
      Scanned size l (scanPiece c l.get) rest meaning := by
  by_cases hslash : c = 0x5C
  · rw [scanPiece, if_pos hslash] at hok ⊢
    subst hslash
    exact escape_of_scanned h.ready rfl hok
  · rw [scanPiece, if_neg hslash] at hok ⊢
    obtain ⟨bytes, rest, rfl, hchar, hcontrol, hscanned⟩ :=
      @plain_of_scanned size c more l l.get h rfl hok
    exact ⟨bytes, rest, c :: bytes, rfl,
      .plain hchar (plain_bytes hchar ⟨hcontrol, hquote, hslash⟩), hscanned⟩

/-- A string was scanned: it left `rest`, and the buffer has its meaning. -/
structure ScannedString (size : ℕ) (result : TokenType × Lexer) (rest s : Bytes) : Prop where
  token : result.1 = .valueString
  ready : result.2.Ready size rest
  buffer : result.2.tokenBuffer = s

theorem scanStringLoop_of_literal {body s rest : Bytes} (hbody : Literal body s) {l : Lexer}
    (h : l.Ready size (body ++ 0x22 :: rest)) {n : ℕ} (hn : body.length < n) :
    ScannedString size (scanStringLoop n l) rest (l.tokenBuffer ++ s) := by
  induction hbody generalizing l n with
  | nil =>
      cases n with
      | zero => exact absurd hn (Nat.not_lt_zero _)
      | succ n =>
          have hread := h.get_cons
          rw [scanStringLoop_cons hread.current, if_pos rfl]
          exact ⟨rfl, hread.ready, (List.append_nil _).symm⟩
  | @cons piece meaning body s hpiece _ ih =>
      cases n with
      | zero => exact absurd hn (Nat.not_lt_zero _)
      | succ n =>
          -- a piece is not empty, so there are turns enough
          have hlength := List.length_pos_iff.mpr hpiece.ne_nil
          rw [List.length_append] at hn
          rw [List.append_assoc] at h
          obtain ⟨c, hc, hquote, hok, hready, hadded⟩ := scanned_piece hpiece h
          rw [scanStringLoop_cons hc, if_neg hquote, if_pos hok, ← List.append_assoc, ← hadded]
          exact ih hready (by omega)

theorem literal_of_scanStringLoop {n : ℕ} {l : Lexer} {text : Bytes} (h : l.Ready size text)
    (htoken : (scanStringLoop n l).1 = .valueString) :
    ∃ body s rest, text = body ++ 0x22 :: rest ∧ Literal body s ∧
      ScannedString size (scanStringLoop n l) rest (l.tokenBuffer ++ s) := by
  -- on the turns; the quote ends the literal, and any other turn is one piece of it
  induction n generalizing l text with
  | zero => cases htoken
  | succ n ih =>
      cases hc : l.get.current with
      | none =>
          rw [scanStringLoop] at htoken
          simp only [hc] at htoken
          cases htoken
      | some c =>
          obtain ⟨more, rfl, hread⟩ := h.cons_of_current hc
          rw [scanStringLoop_cons hc] at htoken ⊢
          by_cases hquote : c = 0x22
          · subst hquote
            exact ⟨[], [], more, rfl, .nil, rfl, hread.ready, (List.append_nil _).symm⟩
          · rw [if_neg hquote] at htoken ⊢
            split_ifs at htoken ⊢ with hok
            obtain ⟨tail, text, meaning, rfl, hpiece, -, hready, hadded⟩ :=
              piece_of_scanned hread hquote hok
            obtain ⟨body, s, rest, rfl, hbody, hstring⟩ := ih hready htoken
            refine ⟨c :: tail ++ body, meaning ++ s, rest, by simp, .cons hpiece hbody, ?_⟩
            rwa [hadded, List.append_assoc] at hstring

/-- `scan_string` reads a literal up to its quote. -/
theorem scanString_of_literal {l : Lexer} {c : Option UInt8} {body s rest : Bytes}
    (hbody : Literal body s) (h : l.Read size c (body ++ 0x22 :: rest)) :
    ScannedString size (scanString l) rest s := by
  refine scanStringLoop_of_literal hbody h.reset.ready ?_
  rw [h.ready.turns, List.length_append]
  omega

theorem literal_of_scanString {l : Lexer} {c : Option UInt8} {text : Bytes} (h : l.Read size c text)
    (htoken : (scanString l).1 = .valueString) :
    ∃ body s rest, text = body ++ 0x22 :: rest ∧ Literal body s ∧
      ScannedString size (scanString l) rest s :=
  literal_of_scanStringLoop h.reset.ready htoken

theorem scanStringLoop_token (n : ℕ) (l : Lexer) :
    (scanStringLoop n l).1 = .valueString ∨ (scanStringLoop n l).1 = .parseError := by
  induction n generalizing l with
  | zero => exact .inr rfl
  | succ n ih =>
      cases hc : l.get.current with
      | none =>
          right
          rw [scanStringLoop]
          simp only [hc]
      | some c =>
          rw [scanStringLoop_cons hc]
          split_ifs
          · exact .inl rfl
          · exact ih _
          · exact .inr rfl

theorem scanString_token {l : Lexer} (hok : (scanString l).1 ≠ .parseError) :
    (scanString l).1 = .valueString :=
  (scanStringLoop_token _ _).resolve_right hok

end Structlog.Json.Lexer
