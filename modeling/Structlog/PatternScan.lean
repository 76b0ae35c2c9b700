import Structlog.PatternPieces

/-!
# The scanner of `compile_pattern_`

`compile_pattern_` and `handle_padspec_` share an iterator.  Here it is an index into the
pattern, every `*it` is checked, and the loops have a number of rounds after which they are
given up: `none` is a read at or past the end, or a loop that has not come to its end.

`At` says what is left of the pattern, and the scanner finds in it what `compilePattern`
finds (`scanPattern_eq`).  An iterator moves past the end only from a position that has been
read.
-/

namespace Structlog

open Lib

/-! ## The code -/

/-- The loop over the digits of a width. -/
def scanWidth (pattern : Bytes) : ℕ → ℕ → ℕ → Option (ℕ × ℕ)
  | 0, _, _ => none
  | rounds + 1, width, it =>
      if it = pattern.length then some (width, it)
      else
        pattern[it]?.bind fun c =>
          if isDigit c then
            scanWidth pattern rounds ((width * 10 + (c.toNat - 48)) % sizeT) (it + 1)
          else some (width, it)

/-- The optional `!` behind a width. -/
def scanTruncate (pattern : Bytes) (side : PadSide) (width it : ℕ) : Option (PaddingInfo × ℕ) :=
  let padding (truncate : Bool) : PaddingInfo :=
    ⟨min width maxWidth, side, truncate, true, Nat.min_le_right ..⟩
  if it = pattern.length then some (padding false, it)
  else
    pattern[it]?.map fun c =>
      if c = charByte '!' then (padding true, it + 1) else (padding false, it)

/-- The width, if there is one. -/
def scanAfterSide (pattern : Bytes) (rounds : ℕ) (side : PadSide) (it : ℕ) :
    Option (PaddingInfo × ℕ) :=
  if it = pattern.length then some (.none, it)
  else
    pattern[it]?.bind fun c =>
      if isDigit c then
        (scanWidth pattern rounds (c.toNat - 48) (it + 1)).bind fun read =>
          scanTruncate pattern side read.1 read.2
      else some (.none, it)

/-- `handle_padspec_`. -/
def scanPadspec (pattern : Bytes) (rounds it : ℕ) : Option (PaddingInfo × ℕ) :=
  if it = pattern.length then some (.none, it)
  else
    pattern[it]?.bind fun c =>
      if c = charByte '-' then scanAfterSide pattern rounds .right (it + 1)
      else if c = charByte '=' then scanAfterSide pattern rounds .center (it + 1)
      else scanAfterSide pattern rounds .left it

/-- The loop in `compile_pattern_`. -/
def scanPattern (now : ℤ) (pattern : Bytes) :
    ℕ → Option Bytes → ℕ → Option (List FlagFormatter)
  | 0, _, _ => none
  | rounds + 1, userChars, it =>
      if it = pattern.length then some (userFormatter userChars)
      else
        pattern[it]?.bind fun c =>
          if c = charByte '%' then
            (scanPadspec pattern rounds (it + 1)).bind fun spec =>
              if spec.2 = pattern.length then some (userFormatter userChars)
              else
                pattern[spec.2]?.bind fun flag =>
                  (scanPattern now pattern rounds none (spec.2 + 1)).map fun others =>
                    userFormatter userChars ++ handleFlag now flag spec.1 ++ others
          else scanPattern now pattern rounds (some (userChars.getD [] ++ [c])) (it + 1)

/-! ## The iterator -/

/-- `rest` is left of the pattern from `it` on. -/
def At (pattern : Bytes) (it : ℕ) (rest : Bytes) : Prop :=
  ∃ before, pattern = before ++ rest ∧ it = before.length

section Iterator

variable {pattern : Bytes} {it : ℕ} {c : UInt8} {rest : Bytes}

theorem at_begin (pattern : Bytes) : At pattern 0 pattern := ⟨[], rfl, rfl⟩

theorem At.end_iff (h : At pattern it rest) : it = pattern.length ↔ rest = [] := by
  obtain ⟨before, rfl, rfl⟩ := h
  rw [List.length_append, left_eq_add, List.length_eq_zero_iff]

theorem At.ne_end (h : At pattern it (c :: rest)) : it ≠ pattern.length :=
  mt h.end_iff.mp (List.cons_ne_nil c rest)

theorem At.deref (h : At pattern it (c :: rest)) : pattern[it]? = some c := by
  obtain ⟨before, rfl, rfl⟩ := h
  rw [List.getElem?_append_right le_rfl, Nat.sub_self]
  rfl

theorem At.next (h : At pattern it (c :: rest)) : At pattern (it + 1) rest := by
  obtain ⟨before, rfl, rfl⟩ := h
  exact ⟨before ++ [c], by rw [List.append_cons], by rw [List.length_append]; rfl⟩

/-! ## What the scanner finds -/

/-- A scanner of a pad spec finds what the parser finds. -/
def Finds (pattern : Bytes) (found : Option (PaddingInfo × ℕ)) (parsed : PaddingInfo × Bytes) :
    Prop :=
  ∃ it, found = some (parsed.1, it) ∧ At pattern it parsed.2

theorem scanWidth_eq (h : At pattern it rest) {rounds : ℕ} (hrounds : rest.length < rounds)
    (width : ℕ) :
    ∃ it', scanWidth pattern rounds width it = some ((handleWidth width rest).1, it') ∧
      At pattern it' (handleWidth width rest).2 := by
  induction rest generalizing it rounds width with
  | nil =>
      obtain ⟨rounds, rfl⟩ := Nat.exists_eq_succ_of_ne_zero (Nat.ne_zero_of_lt hrounds)
      refine ⟨it, ?_, h⟩
      rw [scanWidth, if_pos (h.end_iff.mpr rfl)]
      rfl
  | cons c rest ih =>
      obtain ⟨rounds, rfl⟩ := Nat.exists_eq_succ_of_ne_zero (Nat.ne_zero_of_lt hrounds)
      rw [scanWidth, if_neg h.ne_end, h.deref, Option.bind_some, handleWidth]
      split_ifs
      · exact ih h.next (Nat.lt_of_succ_lt_succ hrounds) _
      · exact ⟨it, rfl, h⟩

theorem scanTruncate_eq (h : At pattern it rest) (side : PadSide) (width : ℕ) :
    Finds pattern (scanTruncate pattern side width it) (handleTruncate side width rest) := by
  cases rest with
  | nil =>
      refine ⟨it, ?_, h⟩
      rw [scanTruncate, if_pos (h.end_iff.mpr rfl)]
      rfl
  | cons c rest =>
      rw [scanTruncate, if_neg h.ne_end, h.deref, Option.map_some, handleTruncate]
      dsimp only
      split_ifs
      · exact ⟨it + 1, rfl, h.next⟩
      · exact ⟨it, rfl, h⟩

/-- The pad spec behind the character of a side, or without one. -/
def handleAfterSide (side : PadSide) : Bytes → PaddingInfo × Bytes
  | [] => (.none, [])
  | c :: rest =>
      if isDigit c then
        handleTruncate side (handleWidth (c.toNat - 48) rest).1
          (handleWidth (c.toNat - 48) rest).2
      else (.none, c :: rest)

theorem handlePadspec_cons (c : UInt8) (rest : Bytes) :
    handlePadspec (c :: rest) =
      if c = charByte '-' then handleAfterSide .right rest
      else if c = charByte '=' then handleAfterSide .center rest
      else handleAfterSide .left (c :: rest) := by
  cases rest <;> rfl

theorem scanAfterSide_eq (h : At pattern it rest) {rounds : ℕ} (hrounds : rest.length < rounds)
    (side : PadSide) :
    Finds pattern (scanAfterSide pattern rounds side it) (handleAfterSide side rest) := by
  cases rest with
  | nil =>
      refine ⟨it, ?_, h⟩
      rw [scanAfterSide, if_pos (h.end_iff.mpr rfl)]
      rfl
  | cons c rest =>
      rw [scanAfterSide, if_neg h.ne_end, h.deref, Option.bind_some, handleAfterSide]
      split_ifs
      · have hrest := Nat.lt_of_succ_lt hrounds
        obtain ⟨it', hwidth, hat⟩ := scanWidth_eq h.next hrest (c.toNat - 48)
        rw [hwidth, Option.bind_some]
        exact scanTruncate_eq hat side _
      · exact ⟨it, rfl, h⟩

theorem scanPadspec_eq (h : At pattern it rest) {rounds : ℕ} (hrounds : rest.length < rounds) :
    Finds pattern (scanPadspec pattern rounds it) (handlePadspec rest) := by
  cases rest with
  | nil =>
      refine ⟨it, ?_, h⟩
      rw [scanPadspec, if_pos (h.end_iff.mpr rfl)]
      rfl
  | cons c rest =>
      have hrest := Nat.lt_of_succ_lt hrounds
      rw [scanPadspec, if_neg h.ne_end, h.deref, Option.bind_some, handlePadspec_cons]
      split_ifs
      · exact scanAfterSide_eq h.next hrest .right
      · exact scanAfterSide_eq h.next hrest .center
      · exact scanAfterSide_eq h hrounds .left

theorem compileLoop_rounds (now : ℤ) {pattern : Bytes} {rounds : ℕ}
    (hrounds : pattern.length ≤ rounds) (userChars : Option Bytes) :
    compileLoop now rounds userChars pattern =
      compileLoop now pattern.length userChars pattern := by
  rw [compileLoop_eq, compileLoop_eq, compileLoopWith_rounds _ _ hrounds le_rfl]

/-- The step of the loop: what is left is compiled as it is. -/
theorem scanPattern_at (now : ℤ) (h : At pattern it rest) {rounds : ℕ}
    (hrounds : rest.length < rounds) (userChars : Option Bytes) :
    scanPattern now pattern rounds userChars it =
      some (compileLoop now rest.length userChars rest) := by
  induction hlength : rest.length using Nat.strong_induction_on
    generalizing it rest rounds userChars with
  | _ length ih =>
      subst hlength
      obtain ⟨rounds, rfl⟩ := Nat.exists_eq_succ_of_ne_zero (Nat.ne_zero_of_lt hrounds)
      cases rest with
      | nil =>
          rw [scanPattern, if_pos (h.end_iff.mpr rfl)]
          rfl
      | cons c rest =>
          have hrest : rest.length < rounds := Nat.lt_of_succ_lt_succ hrounds
          rw [scanPattern, if_neg h.ne_end, h.deref, Option.bind_some, List.length_cons,
            compileLoop]
          split_ifs with hpercent
          · obtain ⟨it', hspec, hat⟩ := scanPadspec_eq h.next hrest
            have hle := length_handlePadspec_le rest
            rw [hspec, Option.bind_some]
            generalize handlePadspec rest = parsed at hat hle ⊢
            obtain ⟨padding, _ | ⟨flag, after⟩⟩ := parsed
            · rw [if_pos (hat.end_iff.mpr rfl)]
            · rw [List.length_cons] at hle
              have hothers := ih after.length (by rw [List.length_cons]; omega) hat.next
                (by omega : after.length < rounds) none rfl
              have hsame := compileLoop_rounds now (by omega : after.length ≤ rest.length) none
              rw [if_neg hat.ne_end, hat.deref, Option.bind_some, hothers, Option.map_some]
              dsimp only
              rw [hsame]
          · exact ih rest.length (Nat.lt_succ_self _) h.next hrest _ rfl

end Iterator

/-- The loop comes to its end without reading past that of the pattern, and makes the
formatters of `compilePattern`. -/
theorem scanPattern_eq (now : ℤ) {pattern : Bytes} {rounds : ℕ}
    (hrounds : pattern.length < rounds) :
    scanPattern now pattern rounds none 0 = some (compilePattern now pattern) :=
  scanPattern_at now (at_begin pattern) hrounds none

end Structlog
