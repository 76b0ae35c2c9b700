import Structlog.PaddedFlags

/-!
# The width of a pad spec

`handle_padspec_` adds up the digits of a width in a `size_t` and compares the sum with 64
when it has read them all.  What it compares is the number modulo `2 ^ 64`
(`handleWidth_digits`): a number beyond the range comes out as the maximum only if its
remainder does (`pad_width_clamped_iff`).
-/

namespace Structlog

open Lib

/-! ## The number that is read -/

/-- The digits of a width as a number, from `value` on. -/
def digitsFrom (value : ℕ) (digits : Bytes) : ℕ :=
  digits.foldl (fun value c => value * 10 + (c.toNat - 48)) value

/-- The number that the digits stand for. -/
def digitsValue (digits : Bytes) : ℕ := digitsFrom 0 digits

theorem digitsFrom_mod (value : ℕ) (digits : Bytes) :
    digitsFrom (value % sizeT) digits % sizeT = digitsFrom value digits % sizeT := by
  induction digits generalizing value with
  | nil => exact Nat.mod_mod value sizeT
  | cons c rest ih =>
      have hfirst : (value % sizeT * 10 + (c.toNat - 48)) % sizeT =
          (value * 10 + (c.toNat - 48)) % sizeT := by
        rw [Nat.add_mod, Nat.mod_mul_mod, ← Nat.add_mod]
      calc digitsFrom (value % sizeT * 10 + (c.toNat - 48)) rest % sizeT
          = digitsFrom ((value % sizeT * 10 + (c.toNat - 48)) % sizeT) rest % sizeT :=
            (ih _).symm
        _ = digitsFrom ((value * 10 + (c.toNat - 48)) % sizeT) rest % sizeT := by rw [hfirst]
        _ = digitsFrom (value * 10 + (c.toNat - 48)) rest % sizeT := ih _

/-- The loop reads all of the digits, in `size_t`. -/
theorem handleWidth_digits {digits rest : Bytes} (hdigits : ∀ c ∈ digits, isDigit c)
    (hrest : ∀ c ∈ rest.head?, ¬ isDigit c) {width : ℕ} (hwidth : width < sizeT) :
    handleWidth width (digits ++ rest) = (digitsFrom width digits % sizeT, rest) := by
  induction digits generalizing width with
  | nil =>
      have hsmall : digitsFrom width [] % sizeT = width := Nat.mod_eq_of_lt hwidth
      rw [List.nil_append, handleWidth_of_head hrest, hsmall]
  | cons c others ih =>
      obtain ⟨hfirst, hothers⟩ := List.forall_mem_cons.mp hdigits
      have hnext : (width * 10 + (c.toNat - 48)) % sizeT < sizeT := Nat.mod_lt _ (by decide)
      rw [List.cons_append, handleWidth, if_pos hfirst, ih hothers hnext, digitsFrom_mod]
      rfl

/-! ## The pad spec -/

/-- What is left of the pattern: a `!` behind the width belongs to it. -/
def afterMark (rest : Bytes) : Bytes := if rest.head? = some (charByte '!') then rest.tail else rest

theorem handleTruncate_eq (side : PadSide) (width : ℕ) (rest : Bytes) :
    handleTruncate side width rest =
      (⟨min width maxWidth, side, decide (rest.head? = some (charByte '!')), true,
        Nat.min_le_right ..⟩, afterMark rest) := by
  cases rest with
  | nil => rfl
  | cons c rest =>
      by_cases hmark : c = charByte '!'
      · simp [handleTruncate, afterMark, hmark]
      · simp [handleTruncate, afterMark, hmark]

/-- A digit is no mark of a side. -/
theorem isDigit_ne_mark {c : UInt8} (h : isDigit c) : c ≠ charByte '-' ∧ c ≠ charByte '=' := by
  constructor
  · rintro rfl
    exact absurd h (by decide)
  · rintro rfl
    exact absurd h (by decide)

/-- A width of any length, on any side. -/
theorem handlePadspec_digits (side : PadSide) {digits rest : Bytes} (hne : digits ≠ [])
    (hdigits : ∀ c ∈ digits, isDigit c) (hrest : ∀ c ∈ rest.head?, ¬ isDigit c) :
    handlePadspec (side.mark ++ digits ++ rest) =
      handleTruncate side (digitsValue digits % sizeT) rest := by
  obtain ⟨first, others, rfl⟩ := List.exists_cons_of_ne_nil hne
  obtain ⟨hfirst, hothers⟩ := List.forall_mem_cons.mp hdigits
  obtain ⟨hminus, hequals⟩ := isDigit_ne_mark hfirst
  have hone : first.toNat - 48 < sizeT := by
    have hbyte := first.toNat_lt
    have hsize : sizeT = 2 ^ 64 := rfl
    omega
  have hvalue : digitsFrom (first.toNat - 48) others = digitsValue (first :: others) := by
    rw [digitsValue, digitsFrom, digitsFrom, List.foldl_cons, Nat.zero_mul, Nat.zero_add]
  have hread := handleWidth_digits hothers hrest hone
  rw [hvalue] at hread
  cases side with
  | left =>
      rw [PadSide.mark, List.nil_append, List.cons_append, handlePadspec]
      dsimp only
      rw [if_neg hminus, if_neg hequals, if_pos hfirst, hread]
  | right =>
      change handlePadspec (charByte '-' :: first :: (others ++ rest)) = _
      rw [handlePadspec]
      dsimp only
      rw [if_pos rfl, if_pos hfirst, hread]
  | center =>
      change handlePadspec (charByte '=' :: first :: (others ++ rest)) = _
      rw [handlePadspec]
      dsimp only
      rw [if_neg (by decide), if_pos rfl, if_pos hfirst, hread]

/-! ## Clamping -/

/-- The width is the number, or the maximum if that is less, and what is left comes after
the digits and after a `!`, if there is one. -/
structure Clamped (side : PadSide) (digits rest : Bytes) : Prop where
  width : (handlePadspec (side.mark ++ digits ++ rest)).1.width = min (digitsValue digits) maxWidth
  consumed : (handlePadspec (side.mark ++ digits ++ rest)).2 = afterMark rest

/-- The number does not come out as a width of less than the maximum, unless it is one. -/
def InRange (digits : Bytes) : Prop :=
  digitsValue digits < maxWidth ∨ maxWidth ≤ digitsValue digits % sizeT

instance (digits : Bytes) : Decidable (InRange digits) := inferInstanceAs (Decidable (_ ∨ _))

theorem min_mod_iff (value : ℕ) :
    min (value % sizeT) maxWidth = min value maxWidth ↔
      value < maxWidth ∨ maxWidth ≤ value % sizeT := by
  have hle := Nat.mod_le value sizeT
  have hmax : maxWidth < sizeT := by decide
  have hsmall : value < maxWidth → value % sizeT = value := fun h =>
    Nat.mod_eq_of_lt (h.trans hmax)
  omega

/-- The width is clamped, for digits of any length, exactly if the number is in range, and
for such numbers it is monotone. -/
theorem pad_width_clamped_iff (side : PadSide) (digits rest : Bytes) (hne : digits ≠ [])
    (hdigits : ∀ c ∈ digits, isDigit c) (hrest : ∀ c ∈ rest.head?, ¬ isDigit c) :
    (Clamped side digits rest ↔ InRange digits) ∧
      ∀ digits' rest', digits' ≠ [] → (∀ c ∈ digits', isDigit c) →
        (∀ c ∈ rest'.head?, ¬ isDigit c) → InRange digits → InRange digits' →
        digitsValue digits ≤ digitsValue digits' →
        (handlePadspec (side.mark ++ digits ++ rest)).1.width ≤
          (handlePadspec (side.mark ++ digits' ++ rest')).1.width := by
  have hwidth {digits rest : Bytes} (hne : digits ≠ []) (hdigits : ∀ c ∈ digits, isDigit c)
      (hrest : ∀ c ∈ rest.head?, ¬ isDigit c) :
      (handlePadspec (side.mark ++ digits ++ rest)).1.width =
        min (digitsValue digits % sizeT) maxWidth := by
    rw [handlePadspec_digits side hne hdigits hrest, handleTruncate_eq]
  have hconsumed : (handlePadspec (side.mark ++ digits ++ rest)).2 = afterMark rest := by
    rw [handlePadspec_digits side hne hdigits hrest, handleTruncate_eq]
  constructor
  · constructor
    · intro hclamped
      apply (min_mod_iff _).mp
      rw [← hwidth hne hdigits hrest]
      exact hclamped.width
    · intro hrange
      exact ⟨(hwidth hne hdigits hrest).trans ((min_mod_iff _).mpr hrange), hconsumed⟩
  · intro digits' rest' hne' hdigits' hrest' hrange hrange' hle
    rw [hwidth hne hdigits hrest, hwidth hne' hdigits' hrest', (min_mod_iff _).mpr hrange,
      (min_mod_iff _).mpr hrange']
    exact min_le_min_right maxWidth hle

/-- `%-300n`, and a number of thirty digits before it. -/
theorem pad_width_clamped_huge :
    Clamped .right (ascii "300") (ascii "n") ∧
      (handlePadspec (PadSide.right.mark ++ ascii "300" ++ ascii "n")).1.width ≤
        (handlePadspec (PadSide.right.mark ++ ascii "999999999999999999999999999999" ++
          ascii "!n")).1.width := by
  obtain ⟨hiff, hmono⟩ := pad_width_clamped_iff .right (ascii "300") (ascii "n") (by decide)
    (forall_mem_of_all (by decide)) (forall_mem_of_option_all (by decide))
  refine ⟨hiff.mpr (by decide), ?_⟩
  exact hmono (ascii "999999999999999999999999999999") (ascii "!n") (by decide)
    (forall_mem_of_all (by decide)) (forall_mem_of_option_all (by decide)) (by decide) (by decide)
    (by decide)

/-- The first number beyond the range of a `size_t` is no width at all. -/
theorem pad_width_wraps :
    (∀ c ∈ ascii "18446744073709551616", isDigit c) ∧
      digitsValue (ascii "18446744073709551616") = 2 ^ 64 ∧
      (handlePadspec (PadSide.left.mark ++ ascii "18446744073709551616" ++
        ascii "v")).1.width = 0 ∧
      ¬ Clamped .left (ascii "18446744073709551616") (ascii "v") ∧
      ¬ ∀ digits digits' : Bytes, digits ≠ [] → digits' ≠ [] → (∀ c ∈ digits, isDigit c) →
        (∀ c ∈ digits', isDigit c) → digitsValue digits ≤ digitsValue digits' →
        (handlePadspec (digits ++ ascii "v")).1.width ≤
          (handlePadspec (digits' ++ ascii "v")).1.width := by
  refine ⟨forall_mem_of_all (by decide), by decide, by decide, ?_, ?_⟩
  · intro hclamped
    have hwidth := hclamped.width
    revert hwidth
    decide
  · intro hmono
    have hle := hmono (ascii "1") (ascii "18446744073709551616") (by decide) (by decide)
      (forall_mem_of_all (by decide)) (forall_mem_of_all (by decide)) (by decide)
    revert hle
    decide

end Structlog
