import Mathlib.Order.Defs.LinearOrder
import Mathlib.Data.List.Basic
import Mathlib.Data.List.Lex
import Mathlib.Tactic.IntervalCases

/-!
# Byte strings and decimal text

Text is a list of bytes.  `ascii` writes a literal, `decimal` a natural number
and `decimalInt` an integer in base ten, as every formatting routine of a C
library prints them.  The two facts used about decimal text are how long it is
(`decimalLength_le_iff`) and that it determines the number
(`decimal_injective`).
-/

namespace Structlog.Lib

abbrev Bytes := List UInt8

/-- Bytes in the order of their values, as `memcmp` compares them. -/
instance linearOrderByte : LinearOrder UInt8 where
  le_refl := UInt8.le_refl
  le_trans _ _ _ := UInt8.le_trans
  le_antisymm _ _ := UInt8.le_antisymm
  le_total := UInt8.le_total
  lt_iff_le_not_ge a b := by
    rw [UInt8.lt_iff_toNat_lt, UInt8.le_iff_toNat_le, UInt8.le_iff_toNat_le]
    omega
  toDecidableLE := inferInstance

/-- The byte of an ASCII character. -/
def charByte (c : Char) : UInt8 := UInt8.ofNat c.toNat

/-- The bytes of an ASCII literal. -/
def ascii (text : String) : Bytes := text.toList.map charByte

/-- Where a byte is for the last time. -/
def rfind (c : UInt8) (s : Bytes) : Option ℕ :=
  (s.reverse.findIdx? (· = c)).map fun i => s.length - 1 - i

theorem rfind_eq_none {c : UInt8} {s : Bytes} (h : c ∉ s) : rfind c s = none := by
  have hnone : s.reverse.findIdx? (· = c) = none := List.findIdx?_eq_none_iff.mpr fun b hb =>
    decide_eq_false fun heq => h (heq ▸ List.mem_reverse.mp hb)
  rw [rfind, hnone, Option.map_none]

theorem rfind_append_cons {c : UInt8} (before : Bytes) {after : Bytes} (h : c ∉ after) :
    rfind c (before ++ c :: after) = some before.length := by
  have hnone : after.reverse.findIdx? (· = c) = none := List.findIdx?_eq_none_iff.mpr fun b hb =>
    decide_eq_false fun heq => h (heq ▸ List.mem_reverse.mp hb)
  have hreverse : (before ++ c :: after).reverse = after.reverse ++ c :: before.reverse := by
    simp only [List.reverse_append, List.reverse_cons, List.append_assoc, List.singleton_append]
  have hsome : (before ++ c :: after).reverse.findIdx? (· = c) = some after.length := by
    rw [hreverse, List.findIdx?_append, hnone, List.findIdx?_cons]
    simp
  rw [rfind, hsome, Option.map_some, List.length_append, List.length_cons]
  congr 1
  omega

/-- A byte that is there is there for the last time. -/
theorem exists_last_of_mem {c : UInt8} {s : Bytes} (h : c ∈ s) :
    ∃ before after, s = before ++ c :: after ∧ c ∉ after := by
  obtain ⟨after, before, hsplit, hafter⟩ :=
    List.eq_append_cons_of_mem (List.mem_reverse.mpr h)
  refine ⟨before.reverse, after.reverse, ?_, mt List.mem_reverse.mp hafter⟩
  calc s = s.reverse.reverse := (List.reverse_reverse s).symm
    _ = (after ++ c :: before).reverse := by rw [hsplit]
    _ = before.reverse ++ c :: after.reverse := by
        simp only [List.reverse_append, List.reverse_cons, List.append_assoc,
          List.singleton_append]

/-- What holds of all bytes of a text, found by going through the text. -/
theorem forall_mem_of_all {p : UInt8 → Prop} [DecidablePred p] {s : Bytes}
    (h : s.all (fun c => decide (p c)) = true) : ∀ c ∈ s, p c :=
  fun c hc => of_decide_eq_true (List.all_eq_true.mp h c hc)

theorem forall_mem_of_option_all {p : UInt8 → Prop} [DecidablePred p] {last : Option UInt8}
    (h : last.all (fun c => decide (p c)) = true) : ∀ c ∈ last, p c := by
  rintro c rfl
  exact of_decide_eq_true h

/-- What holds of all bytes, found by going through them. -/
theorem forall_byte {p : UInt8 → Prop} (h : ∀ n < 256, p (UInt8.ofNat n)) (b : UInt8) : p b := by
  have := h b.toNat b.toNat_lt
  rwa [UInt8.ofNat_toNat] at this

/-! ## Decimal text -/

/-- `n` in base ten, without leading zeros. -/
def decimal (n : ℕ) : Bytes := (Nat.toDigits 10 n).map charByte

/-- `n` in base ten, with a minus sign when it is negative. -/
def decimalInt (n : ℤ) : Bytes :=
  if n < 0 then charByte '-' :: decimal n.natAbs else decimal n.natAbs

/-- The number of decimal digits of `n`; one for `0`. -/
def decimalLength (n : ℕ) : ℕ := (Nat.toDigits 10 n).length

/-- `n` in base ten, with zeros before it up to `width` characters. -/
def zeroPadded (width n : ℕ) : Bytes :=
  List.replicate (width - decimalLength n) (charByte '0') ++ decimal n

/-- `n` with zeros up to `width` characters, the sign before them: `{:0<width>d}`. -/
def zeroPaddedInt (width : ℕ) (n : ℤ) : Bytes :=
  if n < 0 then charByte '-' :: zeroPadded (width - 1) n.natAbs else zeroPadded width n.natAbs

@[simp] theorem length_decimal (n : ℕ) : (decimal n).length = decimalLength n := by
  simp [decimal, decimalLength]

theorem decimalLength_pos (n : ℕ) : 0 < decimalLength n := Nat.length_toDigits_pos

theorem decimalLength_le_iff {n k : ℕ} (hk : 0 < k) : decimalLength n ≤ k ↔ n < 10 ^ k :=
  Nat.length_toDigits_le_iff (by decide) hk

theorem decimalLength_mono {m n : ℕ} (h : m ≤ n) : decimalLength m ≤ decimalLength n := by
  rw [decimalLength_le_iff (decimalLength_pos n)]
  exact Nat.lt_of_le_of_lt h ((decimalLength_le_iff (decimalLength_pos n)).mp (Nat.le_refl _))

/-- The numbers of exactly `k + 1` digits. -/
theorem decimalLength_eq {n k : ℕ} (hlow : 10 ^ k ≤ n) (hhigh : n < 10 ^ (k + 1)) (hk : 0 < k) :
    decimalLength n = k + 1 := by
  have hle := (decimalLength_le_iff (Nat.succ_pos k)).mpr hhigh
  have hgt : ¬ decimalLength n ≤ k := fun h => by
    have := (decimalLength_le_iff hk).mp h
    omega
  omega

theorem length_decimalInt (n : ℤ) :
    (decimalInt n).length = decimalLength n.natAbs + if n < 0 then 1 else 0 := by
  unfold decimalInt
  split_ifs <;> simp

theorem isDigit_toNat_bounds {c : Char} (hc : c.isDigit) : 48 ≤ c.toNat ∧ c.toNat ≤ 57 := by
  simp only [Char.isDigit, Bool.and_eq_true, decide_eq_true_eq, UInt32.le_iff_toNat_le] at hc
  exact hc

theorem toNat_charByte_of_isDigit {c : Char} (hc : c.isDigit) :
    (charByte c).toNat = c.toNat := by
  have hbounds := isDigit_toNat_bounds hc
  simp [charByte, Nat.mod_eq_of_lt (show c.toNat < 256 by omega)]

/-- Decimal text consists of the bytes `'0'` to `'9'`. -/
theorem mem_decimal_bounds {n : ℕ} {b : UInt8} (hb : b ∈ decimal n) :
    48 ≤ b.toNat ∧ b.toNat ≤ 57 := by
  obtain ⟨c, hc, rfl⟩ := List.mem_map.mp hb
  have hdigit : c.isDigit := Nat.isDigit_of_mem_toDigits (by decide) (by decide) hc
  rw [toNat_charByte_of_isDigit hdigit]
  exact isDigit_toNat_bounds hdigit

private theorem ofNat_charByte {c : Char} (hc : c.isDigit) :
    Char.ofNat (charByte c).toNat = c := by
  rw [toNat_charByte_of_isDigit hc, Char.ofNat_toNat]

/-- The digit characters are recovered from the bytes. -/
private theorem map_ofNat_decimal (n : ℕ) :
    (decimal n).map (fun b => Char.ofNat b.toNat) = Nat.toDigits 10 n := by
  rw [decimal, List.map_map]
  refine (List.map_congr_left fun c hc => ?_).trans (List.map_id _)
  exact ofNat_charByte (Nat.isDigit_of_mem_toDigits (by decide) (by decide) hc)

/-- The number that digits say. -/
def readDecimal (digits : Bytes) : ℕ :=
  Nat.ofDigitChars 10 (digits.map fun b => Char.ofNat b.toNat) 0

theorem readDecimal_decimal (n : ℕ) : readDecimal (decimal n) = n := by
  rw [readDecimal, map_ofNat_decimal, Nat.ofDigitChars_ten_toDigits]

/-- Decimal text determines the number. -/
theorem decimal_injective : Function.Injective decimal :=
  Function.LeftInverse.injective readDecimal_decimal

/-! ## Padding with zeros -/

theorem length_zeroPadded (width n : ℕ) :
    (zeroPadded width n).length = max width (decimalLength n) := by
  simp only [zeroPadded, List.length_append, List.length_replicate, length_decimal]
  omega

theorem length_zeroPaddedInt {width : ℕ} {n : ℤ} (hwidth : 0 < width) (hlow : 0 ≤ n)
    (hhigh : n.natAbs < 10 ^ width) : (zeroPaddedInt width n).length = width := by
  have hdigits : decimalLength n.natAbs ≤ width := (decimalLength_le_iff hwidth).mpr hhigh
  rw [zeroPaddedInt, if_neg (by omega), length_zeroPadded]
  omega

theorem le_length_zeroPaddedInt (width : ℕ) (n : ℤ) : width ≤ (zeroPaddedInt width n).length := by
  unfold zeroPaddedInt
  split_ifs
  · rw [List.length_cons, length_zeroPadded]
    omega
  · rw [length_zeroPadded]
    omega

theorem mem_zeroPadded_bounds {width n : ℕ} {b : UInt8} (hb : b ∈ zeroPadded width n) :
    48 ≤ b.toNat ∧ b.toNat ≤ 57 := by
  rcases List.mem_append.mp hb with hb | hb
  · rw [List.eq_of_mem_replicate hb]
    decide
  · exact mem_decimal_bounds hb

/-- The zeros do not change the number that is read. -/
theorem readDecimal_zeroPadded (width n : ℕ) : readDecimal (zeroPadded width n) = n := by
  rw [readDecimal, zeroPadded, List.map_append, map_ofNat_decimal, List.map_replicate,
    show Char.ofNat (charByte '0').toNat = '0' from rfl, Nat.ofDigitChars_append,
    Nat.ofDigitChars_replicate_zero, Nat.mul_zero, Nat.ofDigitChars_ten_toDigits]

theorem zeroPadded_injective (width : ℕ) : Function.Injective (zeroPadded width) :=
  Function.LeftInverse.injective (readDecimal_zeroPadded width)

theorem zeroPaddedInt_injective (width : ℕ) : Function.Injective (zeroPaddedInt width) := by
  have hsign (w k : ℕ) (rest : Bytes) : zeroPadded w k ≠ charByte '-' :: rest := by
    intro h
    have hbounds := mem_zeroPadded_bounds (h ▸ List.mem_cons_self)
    exact absurd hbounds.1 (by decide)
  intro m n h
  unfold zeroPaddedInt at h
  split_ifs at h with hm hn hn
  · have := zeroPadded_injective _ (List.cons.inj h).2
    omega
  · exact absurd h.symm (hsign _ _ _)
  · exact absurd h (hsign _ _ _)
  · have := zeroPadded_injective _ h
    omega

/-! ## The last digit -/

theorem decimal_of_lt {n : ℕ} (h : n < 10) : decimal n = [charByte n.digitChar] := by
  rw [decimal, Nat.toDigits_of_lt_base h]
  rfl

/-- The last digit is the remainder, and the digits before it are those of the quotient. -/
theorem decimal_of_le {n : ℕ} (h : 10 ≤ n) :
    decimal n = decimal (n / 10) ++ [charByte (n % 10).digitChar] := by
  rw [decimal, Nat.toDigits_of_base_le (by decide) h, List.map_append]
  rfl

/-- A positive number does not begin with a zero. -/
theorem decimal_of_pos {n : ℕ} (h : 0 < n) : ∃ d ds, decimal n = d :: ds ∧ d ≠ 0x30 := by
  induction n using Nat.strong_induction_on with
  | h n ih =>
      by_cases hlt : n < 10
      · refine ⟨_, [], decimal_of_lt hlt, ?_⟩
        have htable : ∀ n < 10, 0 < n → charByte n.digitChar ≠ 0x30 := by decide
        exact htable n hlt h
      · obtain ⟨d, ds, hdecimal, hd⟩ := ih (n / 10) (by omega) (by omega)
        exact ⟨d, ds ++ _, by rw [decimal_of_le (not_lt.mp hlt), hdecimal]; rfl, hd⟩

theorem zeroPadded_one {n : ℕ} (h : n < 10) : zeroPadded 1 n = [charByte n.digitChar] := by
  have hlength : decimalLength n ≤ 1 := (decimalLength_le_iff Nat.one_pos).mpr h
  have hpos := decimalLength_pos n
  rw [zeroPadded, decimal_of_lt h, show 1 - decimalLength n = 0 by omega]
  rfl

/-- With the zeros too, the last digit is the remainder. -/
theorem zeroPadded_succ {width : ℕ} (hwidth : 0 < width) (n : ℕ) :
    zeroPadded (width + 1) n = zeroPadded width (n / 10) ++ [charByte (n % 10).digitChar] := by
  by_cases h : n < 10
  · -- a single digit, with `0` before it
    have hlength : decimalLength n = 1 := by
      rw [← length_decimal, decimal_of_lt h, List.length_singleton]
    have hzeros : width = width - 1 + 1 := by omega
    rw [zeroPadded, zeroPadded, Nat.div_eq_of_lt h, Nat.mod_eq_of_lt h, hlength, decimal_of_lt h,
      Nat.add_sub_cancel]
    conv_lhs => rw [hzeros, List.replicate_succ']
    rfl
  · have hle : 10 ≤ n := not_lt.mp h
    have hlength : decimalLength n = decimalLength (n / 10) + 1 := by
      rw [← length_decimal, decimal_of_le hle, List.length_append, length_decimal,
        List.length_singleton]
    rw [zeroPadded, zeroPadded, hlength, decimal_of_le hle, Nat.add_sub_add_right,
      List.append_assoc]

/-- The first digits are those of the number without its last digits. -/
theorem take_zeroPadded {width k n : ℕ} (hwidth : 0 < width) (h : n < 10 ^ (width + k)) :
    (zeroPadded (width + k) n).take width = zeroPadded width (n / 10 ^ k) := by
  induction k generalizing n with
  | zero =>
      have hlength := (decimalLength_le_iff hwidth).mpr h
      rw [Nat.pow_zero, Nat.div_one]
      refine List.take_of_length_le ?_
      rw [length_zeroPadded]
      omega
  | succ k ih =>
      have hquotient : n / 10 < 10 ^ (width + k) := by
        rw [← Nat.add_assoc, Nat.pow_succ] at h
        exact Nat.div_lt_of_lt_mul (by rwa [Nat.mul_comm])
      have hlong : width ≤ (zeroPadded (width + k) (n / 10)).length := by
        rw [length_zeroPadded]
        omega
      rw [← Nat.add_assoc, zeroPadded_succ (by omega), List.take_append_of_le_length hlong,
        ih hquotient, Nat.div_div_eq_div_mul, ← Nat.pow_succ']

end Structlog.Lib
