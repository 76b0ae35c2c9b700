import Structlog.Lib.DigitBuffers
import Structlog.PatternFlags

/-!
# How integers are written

Everywhere else an integer is written as `decimal` or `decimalInt`, and the number of its
digits is `decimalLength`.  Here are the functions of fmt and of `fmt_helper` that do this,
with their tables and buffers.

`count_digits` has a path that takes a logarithm from the leading zeros and corrects it with
a table, one for each width, and a loop where there is no such instruction.  They agree
(`count_digits_agree`).  `format_int` writes two digits at a time from the end of a buffer of
21 bytes, and never outside it (`format_int_writes`).
-/

namespace Structlog.Fmt

open Lib

/-! ## Counting digits -/

/-- The loop of `count_digits_fallback`. -/
def countDigitsFallbackFrom (n count : ℕ) : ℕ :=
  if n < 10 then count
  else if n < 100 then count + 1
  else if n < 1000 then count + 2
  else if n < 10000 then count + 3
  else countDigitsFallbackFrom (n / 10000) (count + 4)
  termination_by n

def countDigitsFallback (n : ℕ) : ℕ := countDigitsFallbackFrom n 1

/-- `FMT_BUILTIN_CLZ` and `FMT_BUILTIN_CLZLL`: the leading zeros of a word. -/
def builtinClz (bits n : ℕ) : ℕ := bits - 1 - Nat.log2 n

def bsr2log10 : List ℕ :=
  [1,  1,  1,  2,  2,  2,  3,  3,  3,  4,  4,  4,  4,  5,  5,  5,
   6,  6,  6,  7,  7,  7,  7,  8,  8,  8,  9,  9,  9,  10, 10, 10,
   10, 11, 11, 11, 12, 12, 12, 13, 13, 13, 13, 14, 14, 14, 15, 15,
   15, 16, 16, 16, 16, 17, 17, 17, 18, 18, 18, 19, 19, 19, 19, 20]

/-- `FMT_POWERS_OF_10`. -/
def powersOf10 (factor : ℕ) : List ℕ :=
  [factor * 10, factor * 100, factor * 1000, factor * 10000, factor * 100000, factor * 1000000,
   factor * 10000000, factor * 100000000, factor * 1000000000]

def zeroOrPowersOf10 : List ℕ :=
  [0, 0] ++ powersOf10 1 ++ powersOf10 1000000000 ++ [10000000000000000000]

/-- `count_digits` of a `uint64_t`. -/
def countDigits64 (n : ℕ) : ℕ :=
  let t := bsr2log10.getD (builtinClz 64 (n ||| 1) ^^^ 63) 0
  t - if n < zeroOrPowersOf10.getD t 0 then 1 else 0

/-- `FMT_INC`, for a `T` of so many characters. -/
def fmtInc (characters T : ℕ) : ℕ := (characters <<< 32) - T

def countDigitsInc (n : ℕ) : ℕ :=
  [fmtInc 1 0,           fmtInc 1 0,           fmtInc 1 0,
   fmtInc 2 10,          fmtInc 2 10,          fmtInc 2 10,
   fmtInc 3 100,         fmtInc 3 100,         fmtInc 3 100,
   fmtInc 4 1000,        fmtInc 4 1000,        fmtInc 4 1000,
   fmtInc 5 10000,       fmtInc 5 10000,       fmtInc 5 10000,
   fmtInc 6 100000,      fmtInc 6 100000,      fmtInc 6 100000,
   fmtInc 7 1000000,     fmtInc 7 1000000,     fmtInc 7 1000000,
   fmtInc 8 10000000,    fmtInc 8 10000000,    fmtInc 8 10000000,
   fmtInc 9 100000000,   fmtInc 9 100000000,   fmtInc 9 100000000,
   fmtInc 10 1000000000, fmtInc 10 1000000000, fmtInc 10 1000000000,
   fmtInc 10 1000000000, fmtInc 10 1000000000].getD n 0

/-- `count_digits` of a `uint32_t`; the sum is one of `uint64_t`. -/
def countDigits32 (n : ℕ) : ℕ :=
  ((n + countDigitsInc (builtinClz 32 (n ||| 1) ^^^ 31)) % 2 ^ 64) >>> 32

/-! ### The loop -/

/-- The numbers of `k + 1` digits. -/
theorem decimalLength_of_bounds {n k : ℕ} (hlow : k = 0 ∨ 10 ^ k ≤ n) (hhigh : n < 10 ^ (k + 1)) :
    decimalLength n = k + 1 := by
  rcases Nat.eq_zero_or_pos k with rfl | hk
  · rw [← length_decimal, decimal_of_lt hhigh]
    rfl
  · exact decimalLength_eq (hlow.resolve_left (by omega)) hhigh hk

theorem countDigitsFallbackFrom_eq (n count : ℕ) :
    countDigitsFallbackFrom n count + 1 = decimalLength n + count := by
  induction n using Nat.strong_induction_on generalizing count with
  | h n ih =>
      rw [countDigitsFallbackFrom]
      split_ifs with h₁ h₂ h₃ h₄
      · rw [decimalLength_of_bounds (k := 0) (.inl rfl) h₁]
        omega
      · rw [decimalLength_of_bounds (k := 1) (.inr (not_lt.mp h₁)) h₂]
        omega
      · rw [decimalLength_of_bounds (k := 2) (.inr (not_lt.mp h₂)) h₃]
        omega
      · rw [decimalLength_of_bounds (k := 3) (.inr (not_lt.mp h₃)) h₄]
        omega
      · rw [ih (n / 10000) (by omega), decimalLength_div (k := 4) (not_lt.mp h₄),
          show (10 : ℕ) ^ 4 = 10000 from rfl]
        omega

theorem countDigitsFallback_eq (n : ℕ) : countDigitsFallback n = decimalLength n :=
  Nat.succ.inj (countDigitsFallbackFrom_eq n 1)

/-! ### The logarithm -/

theorem log2_or_one (n : ℕ) : Nat.log2 (n ||| 1) = Nat.log2 n := by
  have hhalf : (n ||| 1) / 2 = n / 2 := by simp [Nat.or_div_two]
  by_cases h : 2 ≤ n
  · rw [Nat.log2_def, Nat.log2_def n, if_pos h, if_pos (h.trans Nat.left_le_or), hhalf]
  · obtain rfl | rfl : n = 0 ∨ n = 1 := by omega
    · rfl
    · rfl

/-- The index of the highest bit, from the leading zeros. -/
theorem clz_xor {bits n : ℕ} (hbits : bits = 32 ∨ bits = 64) (h : n < 2 ^ bits) :
    builtinClz bits (n ||| 1) ^^^ (bits - 1) = Nat.log2 n := by
  have hlog : Nat.log2 n < bits := by
    rcases Nat.eq_zero_or_pos n with rfl | hpos
    · rw [Nat.log2_zero]
      omega
    · exact (Nat.log2_lt (by omega)).mpr h
  rw [builtinClz, log2_or_one]
  rcases hbits with rfl | rfl
  · have htable : ∀ a < 32, (32 - 1 - a) ^^^ (32 - 1) = a := by decide
    exact htable _ hlog
  · have htable : ∀ a < 64, (64 - 1 - a) ^^^ (64 - 1) = a := by decide
    exact htable _ hlog

/-- The number that the highest bit stands for. -/
theorem log2_bounds (n : ℕ) : n < 2 ^ (Nat.log2 n + 1) ∧ (n = 0 ∨ 2 ^ Nat.log2 n ≤ n) := by
  refine ⟨Nat.lt_log2_self, ?_⟩
  rcases Nat.eq_zero_or_pos n with rfl | hpos
  · exact .inl rfl
  · exact .inr (Nat.log2_self_le (by omega))

theorem log2_lt {bits n : ℕ} (hbits : 0 < bits) (h : n < 2 ^ bits) : Nat.log2 n < bits := by
  rcases Nat.eq_zero_or_pos n with rfl | hpos
  · rwa [Nat.log2_zero]
  · exact (Nat.log2_lt (by omega)).mpr h

/-- A number whose highest bit allows `d` digits or one less, told by a power of ten. -/
theorem decimalLength_of_log2 {n d : ℕ} (hd : 0 < d) (hhigh : 2 ^ (Nat.log2 n + 1) ≤ 10 ^ d)
    (hlow : d = 1 ∨ 10 ^ (d - 2) ≤ 2 ^ Nat.log2 n) :
    decimalLength n = d - if n < (if d = 1 then 0 else 10 ^ (d - 1)) then 1 else 0 := by
  obtain ⟨hlt, hle⟩ := log2_bounds n
  obtain ⟨d, rfl⟩ : ∃ k, d = k + 1 := ⟨d - 1, by omega⟩
  rcases Nat.eq_zero_or_pos d with rfl | hpos
  · rw [decimalLength_of_bounds (k := 0) (.inl rfl) (hlt.trans_le hhigh)]
    rfl
  · obtain ⟨e, rfl⟩ : ∃ e, d = e + 1 := ⟨d - 1, by omega⟩
    rw [if_neg (show ¬ e + 1 + 1 = 1 by omega), Nat.add_sub_cancel]
    split_ifs with hpower
    · refine decimalLength_of_bounds ?_ hpower
      have hlow : 10 ^ e ≤ 2 ^ Nat.log2 n := hlow.resolve_left (by omega)
      rcases hle with rfl | hle
      · -- only `0` is below the highest bit that stands for it
        left
        by_contra he
        have := Nat.one_lt_pow he (show 1 < 10 by decide)
        rw [Nat.log2_zero] at hlow
        omega
      · exact .inr (hlow.trans hle)
    · exact decimalLength_of_bounds (.inr (not_lt.mp hpower)) (hlt.trans_le hhigh)

theorem bsr2log10_table : ∀ k < 64, 0 < bsr2log10.getD k 0 ∧
    2 ^ (k + 1) ≤ 10 ^ bsr2log10.getD k 0 ∧
    (bsr2log10.getD k 0 = 1 ∨ 10 ^ (bsr2log10.getD k 0 - 2) ≤ 2 ^ k) ∧
    zeroOrPowersOf10.getD (bsr2log10.getD k 0) 0 =
      if bsr2log10.getD k 0 = 1 then 0 else 10 ^ (bsr2log10.getD k 0 - 1) := by
  decide

theorem countDigits64_eq {n : ℕ} (h : n < 2 ^ 64) : countDigits64 n = decimalLength n := by
  have hbit : builtinClz 64 (n ||| 1) ^^^ 63 = Nat.log2 n := clz_xor (.inr rfl) h
  obtain ⟨hpos, hhigh, hlow, hpower⟩ := bsr2log10_table _ (log2_lt (by decide) h)
  rw [decimalLength_of_log2 hpos hhigh hlow, countDigits64, hbit]
  simp only [hpower]

theorem countDigitsInc_table : ∀ k < 32, ∃ d ≤ 10, 0 < d ∧ 2 ^ (k + 1) ≤ 10 ^ d ∧
    (d = 1 ∨ 10 ^ (d - 2) ≤ 2 ^ k) ∧
    countDigitsInc k = fmtInc d (if d = 1 then 0 else 10 ^ (d - 1)) := by
  have htable : ∀ k < 32, 2 ^ (k + 1) ≤ 10 ^ min (k / 3 + 1) 10 ∧
      (min (k / 3 + 1) 10 = 1 ∨ 10 ^ (min (k / 3 + 1) 10 - 2) ≤ 2 ^ k) ∧
      countDigitsInc k = fmtInc (min (k / 3 + 1) 10)
        (if min (k / 3 + 1) 10 = 1 then 0 else 10 ^ (min (k / 3 + 1) 10 - 1)) := by
    decide
  intro k hk
  exact ⟨min (k / 3 + 1) 10, by omega, by omega, htable k hk⟩

theorem countDigits32_eq {n : ℕ} (h : n < 2 ^ 32) : countDigits32 n = decimalLength n := by
  have hbit : builtinClz 32 (n ||| 1) ^^^ 31 = Nat.log2 n := clz_xor (.inl rfl) h
  obtain ⟨d, hten, hpos, hhigh, hlow, hinc⟩ := countDigitsInc_table _ (log2_lt (by decide) h)
  rw [decimalLength_of_log2 hpos hhigh hlow, countDigits32, hbit, hinc, fmtInc]
  have hpower : (if d = 1 then 0 else 10 ^ (d - 1)) ≤ 10 ^ 9 := by
    split_ifs
    · exact Nat.zero_le _
    · exact Nat.pow_le_pow_right (by decide) (by omega)
  generalize (if d = 1 then 0 else 10 ^ (d - 1)) = power at hpower ⊢
  have hsum : n + (d * 2 ^ 32 - power) < 2 ^ 64 := by omega
  rw [Nat.shiftLeft_eq, Nat.mod_eq_of_lt hsum, Nat.shiftRight_eq_div_pow]
  split_ifs <;> omega

/-- The paths of `count_digits` agree: the number of digits. -/
theorem count_digits_agree :
    (∀ n < 2 ^ 64, countDigits64 n = decimalLength n ∧ countDigitsFallback n = decimalLength n) ∧
      ∀ n < 2 ^ 32, countDigits32 n = decimalLength n ∧ countDigitsFallback n = decimalLength n :=
  ⟨fun n h => ⟨countDigits64_eq h, countDigitsFallback_eq n⟩,
    fun n h => ⟨countDigits32_eq h, countDigitsFallback_eq n⟩⟩

theorem count_digits_agree_limits :
    countDigits64 18446744073709551615 = 20 ∧ countDigits32 4294967295 = 10 :=
  ⟨(count_digits_agree.1 _ (by decide)).1.trans (by decide),
    (count_digits_agree.2 _ (by decide)).1.trans (by decide)⟩

/-! ## Writing digits -/

/-- The characters of `data::digits`, two for each number below 100. -/
def digitPairs : Bytes :=
    ascii "00010203040506070809" ++
    ascii "10111213141516171819" ++
    ascii "20212223242526272829" ++
    ascii "30313233343536373839" ++
    ascii "40414243444546474849" ++
    ascii "50515253545556575859" ++
    ascii "60616263646566676869" ++
    ascii "70717273747576777879" ++
    ascii "80818283848586878889" ++
    ascii "90919293949596979899"

/-- `data::digits[i]`. -/
def digits (i : ℕ) : UInt8 × UInt8 := (digitPairs.getD (2 * i) 0, digitPairs.getD (2 * i + 1) 0)

/-- `out -= 2; copy2(out, src)`. -/
def copy2 (src : UInt8 × UInt8) (out : Cursor) : Option Cursor :=
  if 2 ≤ out.position ∧ out.position ≤ out.buffer.length then
    some ⟨(out.buffer.set (out.position - 2) src.1).set (out.position - 1) src.2,
      out.position - 2⟩
  else none

/-- `format_decimal`, from the pointer at the end on. -/
def formatDecimal (value : ℕ) (out : Cursor) : Option Cursor :=
  if 100 ≤ value then do
    let out ← copy2 (digits (value % 100)) out
    formatDecimal (value / 100) out
  else if value < 10 then out.push (UInt8.ofNat (48 + value))
  else copy2 (digits value) out
  termination_by value

/-- The size of the buffer of `format_int`. -/
def bufferSize : ℕ := 22

/-- `format_unsigned`. -/
def formatUnsigned (buffer : Bytes) (value : ℕ) : Option Cursor :=
  formatDecimal value ⟨buffer, bufferSize - 1⟩

/-- `format_signed` of an integer of so many bits. -/
def formatSigned (bits : ℕ) (buffer : Bytes) (value : ℤ) : Option Cursor := do
  let absValue := (value % 2 ^ bits).toNat
  let negative := value < 0
  -- `0 - abs_value` in the unsigned type
  let absValue := if negative then (2 ^ bits - absValue) % 2 ^ bits else absValue
  let begin ← formatUnsigned buffer absValue
  if negative then begin.push (charByte '-') else some begin

/-- `data()`, of which there are `size()` bytes. -/
def data (str : Cursor) : Bytes :=
  (str.buffer.drop str.position).take (bufferSize - 1 - str.position)

theorem digits_eq {i : ℕ} (h : i < 100) :
    digits i = (charByte (i / 10).digitChar, charByte (i % 10).digitChar) := by
  have htable : ∀ i < 100, digits i =
      (charByte (i / 10).digitChar, charByte (i % 10).digitChar) := by
    decide
  exact htable i h

theorem digit_eq {i : ℕ} (h : i < 10) : UInt8.ofNat (48 + i) = charByte i.digitChar := by
  have htable : ∀ i < 10, UInt8.ofNat (48 + i) = charByte i.digitChar := by decide
  exact htable i h

theorem copy2_eq (src : UInt8 × UInt8) (out : Cursor) :
    copy2 src out = out.pushAll [src.1, src.2] := by
  rw [copy2, Cursor.pushAll, Cursor.pushAll_singleton, Cursor.push]
  by_cases hinside : 0 < out.position ∧ out.position ≤ out.buffer.length
  · rw [if_pos hinside, Option.bind_eq_bind, Option.bind_some, Cursor.push]
    dsimp only
    rw [List.length_set, Nat.sub_sub]
    by_cases htwo : 2 ≤ out.position
    · rw [if_pos ⟨htwo, hinside.2⟩, if_pos ⟨by omega, by omega⟩, List.set_comm _ _ (by omega)]
    · rw [if_neg fun h => htwo h.1, if_neg fun h => htwo (by omega)]
  · rw [if_neg hinside, if_neg fun h => hinside ⟨by omega, h.2⟩]
    rfl

/-- The digits, before the pointer. -/
theorem formatDecimal_eq (value : ℕ) (out : Cursor) :
    formatDecimal value out = out.pushAll (decimal value) := by
  induction value using Nat.strong_induction_on generalizing out with
  | h value ih =>
      rw [formatDecimal]
      split_ifs with hhundred hten
      · rw [decimal_hundred hhundred, Cursor.pushAll_append, copy2_eq, digits_eq (by omega)]
        -- the last two digits stand where the cursor was; the others come before them
        refine bind_congr fun out => ?_
        exact ih (value / 100) (by omega) out
      · rw [decimal_of_lt hten, digit_eq hten]
        rfl
      · rw [decimal_two (by omega) (by omega), copy2_eq, digits_eq (by omega)]

theorem formatUnsigned_eq (buffer : Bytes) (value : ℕ) :
    formatUnsigned buffer value =
      (⟨buffer, bufferSize - 1⟩ : Cursor).pushAll (decimalInt value) := by
  rw [formatUnsigned, formatDecimal_eq, decimalInt, if_neg (by omega), Int.natAbs_natCast]

/-- The two's complement and back is the absolute value. -/
theorem formatSigned_eq {bits : ℕ} (buffer : Bytes) {value : ℤ} (hlow : -2 ^ bits < value)
    (hhigh : value < 2 ^ bits) :
    formatSigned bits buffer value =
      (⟨buffer, bufferSize - 1⟩ : Cursor).pushAll (decimalInt value) := by
  have hpow : ((2 ^ bits : ℕ) : ℤ) = 2 ^ bits := by push_cast; rfl
  rw [formatSigned, decimalInt]
  split_ifs with hneg
  -- the conversion to unsigned adds `2 ^ bits`, and the negation takes the sum from `2 ^ bits`
  · have habs : (2 ^ bits - (value % 2 ^ bits).toNat) % 2 ^ bits = value.natAbs := by
      have hmod : value % 2 ^ bits = value + 2 ^ bits := by
        rw [← Int.add_emod_right, Int.emod_eq_of_lt (by omega) (by omega)]
      rw [hmod, Nat.mod_eq_of_lt (by omega)]
      omega
    rw [habs, formatUnsigned, formatDecimal_eq]
    rfl
  · have habs : (value % 2 ^ bits).toNat = value.natAbs := by
      rw [Int.emod_eq_of_lt (by omega) hhigh]
      omega
    rw [habs, formatUnsigned, formatDecimal_eq]
    cases (⟨buffer, bufferSize - 1⟩ : Cursor).pushAll (decimal value.natAbs) <;> rfl

/-- A text that fits is what `data` then gives; the last byte of the buffer is left. -/
theorem pushAll_data {buffer text : Bytes} (hbuffer : buffer.length = bufferSize)
    (htext : text.length ≤ bufferSize - 1) :
    ∃ str, (⟨buffer, bufferSize - 1⟩ : Cursor).pushAll text = some str ∧ data str = text ∧
      str.buffer.length = bufferSize ∧
      str.buffer.drop (bufferSize - 1) = buffer.drop (bufferSize - 1) := by
  have hpush := @Cursor.pushAll_eq text ⟨buffer, bufferSize - 1⟩ htext
    (hbuffer ▸ Nat.sub_le bufferSize 1)
  have hbefore : (buffer.take (bufferSize - 1 - text.length)).length =
      bufferSize - 1 - text.length := by
    rw [List.length_take]
    omega
  refine ⟨_, hpush, ?_, ?_, ?_⟩
  · rw [data]
    dsimp only
    rw [List.append_assoc, List.drop_append_of_le_length (by omega),
      List.drop_of_length_le (by omega), List.nil_append,
      show bufferSize - 1 - (bufferSize - 1 - text.length) = text.length by omega, List.take_left]
  · simp only [List.length_append, hbefore, List.length_drop, hbuffer]
    unfold bufferSize at *
    omega
  · refine List.drop_left' ?_
    rw [List.length_append, hbefore]
    omega

/-- What there is to say of a `format_int` with this text. -/
def Shows (buffer : Bytes) (result : Option Cursor) (text : Bytes) : Prop :=
  ∃ str, result = some str ∧ data str = text ∧ str.buffer.length = bufferSize ∧
    str.buffer.drop (bufferSize - 1) = buffer.drop (bufferSize - 1)

theorem length_decimalInt_le {n : ℤ} (h : n.natAbs < 2 ^ 64) :
    (decimalInt n).length ≤ bufferSize - 1 := by
  have hdigits : decimalLength n.natAbs ≤ 20 :=
    (decimalLength_le_iff (by decide)).mpr (h.trans (by decide))
  rw [length_decimalInt]
  unfold bufferSize
  split_ifs <;> omega

theorem formatUnsigned_shows {buffer : Bytes} (hbuffer : buffer.length = bufferSize) {value : ℕ}
    (hvalue : value < 2 ^ 64) : Shows buffer (formatUnsigned buffer value) (decimalInt value) := by
  rw [formatUnsigned_eq]
  exact pushAll_data hbuffer (length_decimalInt_le (by omega))

/-- `format_int` writes an integer of any width up to 64 bits in decimal, inside its buffer. -/
theorem format_int_writes {buffer : Bytes} (hbuffer : buffer.length = bufferSize) :
    (∀ bits ≤ 63, ∀ value : ℤ, -2 ^ bits ≤ value → value < 2 ^ bits →
      Shows buffer (formatSigned (bits + 1) buffer value) (decimalInt value)) ∧
      ∀ value < 2 ^ 64, Shows buffer (formatUnsigned buffer value) (decimalInt value) := by
  constructor
  · intro bits hbits value hlow hhigh
    have hmono : (2 : ℤ) ^ bits ≤ 2 ^ 63 := pow_le_pow_right₀ (by decide) hbits
    have hdouble : (2 : ℤ) ^ (bits + 1) = 2 ^ bits * 2 := pow_succ 2 bits
    -- with one more bit also the smallest value is above `-2 ^ (bits + 1)`
    rw [formatSigned_eq buffer (by omega) (by omega)]
    exact pushAll_data hbuffer (length_decimalInt_le (by omega))
  · intro value hvalue
    exact formatUnsigned_shows hbuffer hvalue

theorem format_int_writes_minimum :
    Shows (List.replicate 22 0xFF)
      (formatSigned 64 (List.replicate 22 0xFF) (-9223372036854775808))
      (ascii "-9223372036854775808") :=
  (format_int_writes rfl).1 63 (Nat.le_refl 63) _ (by decide) (by decide)

/-! ## `fmt_helper` -/

/-- `append_int` of an unsigned integer; the buffer of its `format_int` is not initialized. -/
def appendUnsigned (buffer : Bytes) (n : ℕ) (dest : Bytes) : Option Bytes :=
  (formatUnsigned buffer n).map fun i => dest ++ data i

/-- `fmt_helper::count_digits` of a type with so many bytes. -/
def countDigits (sizeofT n : ℕ) : ℕ := if 4 < sizeofT then countDigits64 n else countDigits32 n

/-- The loop of `pad_uint`. -/
def padZeros (digits width : ℕ) (dest : Bytes) : Bytes :=
  if digits < width then padZeros (digits + 1) width (dest ++ [charByte '0']) else dest
  termination_by width - digits

/-- `pad_uint` of a type with so many bytes. -/
def padUint (sizeofT : ℕ) (buffer : Bytes) (n width : ℕ) (dest : Bytes) : Option Bytes :=
  appendUnsigned buffer n (padZeros (countDigits sizeofT n) width dest)

theorem padZeros_eq (digits width : ℕ) (dest : Bytes) :
    padZeros digits width dest = dest ++ List.replicate (width - digits) (charByte '0') := by
  induction hk : width - digits generalizing digits dest with
  | zero =>
      rw [padZeros, if_neg (by omega)]
      simp
  | succ k ih =>
      rw [padZeros, if_pos (by omega), ih _ _ (by omega), List.append_assoc]
      rfl

theorem countDigits_eq {sizeofT n : ℕ} (hsize : sizeofT ≤ 8) (h : n < 2 ^ (8 * sizeofT)) :
    n < 2 ^ 64 ∧ countDigits sizeofT n = decimalLength n := by
  have hwide {bits : ℕ} (hbits : 8 * sizeofT ≤ bits) : n < 2 ^ bits :=
    h.trans_le (Nat.pow_le_pow_right (by decide) hbits)
  refine ⟨hwide (by omega), ?_⟩
  rw [countDigits]
  split_ifs with hfour
  · exact countDigits64_eq (hwide (by omega))
  · exact countDigits32_eq (hwide (by omega))

/-- `pad_uint` appends the number with zeros before it, whatever its type. -/
theorem pad_uint_writes {sizeofT : ℕ} (hsize : sizeofT ≤ 8) {n : ℕ} (h : n < 2 ^ (8 * sizeofT))
    {buffer : Bytes} (hbuffer : buffer.length = bufferSize) (width : ℕ) (dest : Bytes) :
    padUint sizeofT buffer n width dest = some (dest ++ FmtHelper.padUint n width) := by
  obtain ⟨hwide, hdigits⟩ := countDigits_eq hsize h
  obtain ⟨str, hformat, hdata, -⟩ := formatUnsigned_shows hbuffer hwide
  have hdecimal : decimalInt (n : ℤ) = decimal n := by
    rw [decimalInt, if_neg (by omega), Int.natAbs_natCast]
  rw [padUint, appendUnsigned, hformat, Option.map_some, hdata, hdigits, padZeros_eq, hdecimal,
    List.append_assoc]
  rfl

theorem pad_uint_writes_micros :
    padUint 8 (List.replicate 22 0) 250 6 (ascii "12.") = some (ascii "12.000250") :=
  pad_uint_writes (by decide) (by decide) rfl 6 _

end Structlog.Fmt
