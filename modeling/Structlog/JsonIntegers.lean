import Structlog.FmtIntegers
import Structlog.Json

/-!
# How `dump` writes integers

`dump` gives the text of an integer as `decimalInt`; here is the code that writes it.
`dump_integer` keeps a buffer of 64 bytes from call to call, puts the sign at its front and
the digits behind it, two at a time from the last one on.  It says in advance how many
characters there will be, and exactly these are filled (`dump_integer_writes`).
-/

namespace Structlog.Json

open Lib

/-- The size of `number_buffer`. -/
def numberBufferSize : ℕ := 64

/-- `count_digits`, which is the loop that fmt falls back to. -/
def countDigits (x : ℕ) : ℕ := Fmt.countDigitsFallbackFrom x 1

/-- `digits_to_99`, the table that fmt has too. -/
def digitsTo99 (i : ℕ) : UInt8 × UInt8 := Fmt.digits i

/-- `remove_sign` of a negative integer. -/
def removeSign (x : ℤ) : ℕ := ((-(x + 1)).toNat + 1) % 2 ^ 64

/-- The loop of `dump_integer`, and the digits that it leaves. -/
def dumpDigits (absValue : ℕ) (bufferPtr : Cursor) : Option Cursor :=
  if 100 ≤ absValue then do
    let digitsIndex := absValue % 100
    let bufferPtr ← bufferPtr.push (digitsTo99 digitsIndex).2
    let bufferPtr ← bufferPtr.push (digitsTo99 digitsIndex).1
    dumpDigits (absValue / 100) bufferPtr
  else if 10 ≤ absValue then do
    let bufferPtr ← bufferPtr.push (digitsTo99 absValue).2
    bufferPtr.push (digitsTo99 absValue).1
  else bufferPtr.push (UInt8.ofNat (48 + absValue))
  termination_by absValue

/-- `dump_integer` of a `number_integer_t`, or of a `number_unsigned_t` if not `signed`: what
is written, and the buffer then.  It is `none` where the assertion fails or a write is outside
the buffer. -/
def dumpInteger (signed : Bool) (numberBuffer : Bytes) (x : ℤ) : Option (Bytes × Bytes) :=
  if x = 0 then some (ascii "0", numberBuffer)
  else
    let isNegative := signed ∧ ¬ 0 ≤ x
    let buffer := if isNegative then numberBuffer.set 0 (charByte '-') else numberBuffer
    let absValue := if isNegative then removeSign x else x.toNat
    let nChars := if isNegative then 1 + countDigits absValue else countDigits absValue
    if nChars < numberBufferSize - 1 then do
      let bufferPtr ← dumpDigits absValue ⟨buffer, nChars⟩
      return (bufferPtr.buffer.take nChars, bufferPtr.buffer)
    else none

theorem dumpDigits_eq (absValue : ℕ) (bufferPtr : Cursor) :
    dumpDigits absValue bufferPtr = bufferPtr.pushAll (decimal absValue) := by
  have hpair (i : ℕ) (bufferPtr : Cursor) (next : Cursor → Option Cursor) :
      (do
        let bufferPtr ← bufferPtr.push (digitsTo99 i).2
        let bufferPtr ← bufferPtr.push (digitsTo99 i).1
        next bufferPtr) = bufferPtr.pushAll [(digitsTo99 i).1, (digitsTo99 i).2] >>= next := by
    simp [Cursor.pushAll, Option.bind_assoc]
  induction absValue using Nat.strong_induction_on generalizing bufferPtr with
  | h absValue ih =>
      rw [dumpDigits]
      split_ifs with hhundred hten
      · dsimp only
        rw [hpair, digitsTo99, Fmt.digits_eq (by omega), decimal_hundred hhundred,
          Cursor.pushAll_append]
        exact bind_congr fun bufferPtr => ih (absValue / 100) (by omega) bufferPtr
      · rw [decimal_two hten (by omega), digitsTo99, Fmt.digits_eq (by omega)]
        rfl
      · rw [Fmt.digit_eq (by omega), decimal_of_lt (by omega)]
        rfl

theorem countDigits_eq (x : ℕ) : countDigits x = decimalLength x :=
  Fmt.countDigitsFallback_eq x

/-- The digits fill the characters that were counted, behind what is in front of them. -/
theorem dumpDigits_fill {buffer before : Bytes} {absValue : ℕ}
    (hroom : before.length + countDigits absValue ≤ buffer.length)
    (hbefore : buffer.take before.length = before) :
    ∃ bufferPtr, dumpDigits absValue ⟨buffer, before.length + countDigits absValue⟩ =
        some bufferPtr ∧
      bufferPtr.buffer.take (before.length + countDigits absValue) = before ++ decimal absValue ∧
      bufferPtr.buffer.length = buffer.length := by
  rw [countDigits_eq] at hroom ⊢
  have hlength : (before ++ decimal absValue).length =
      before.length + decimalLength absValue := by
    rw [List.length_append, length_decimal]
  have hpush := @Cursor.pushAll_eq (decimal absValue)
    ⟨buffer, before.length + decimalLength absValue⟩
    (by rw [length_decimal]; exact Nat.le_add_left _ _) hroom
  rw [length_decimal, Nat.add_sub_cancel, hbefore] at hpush
  refine ⟨_, (dumpDigits_eq _ _).trans hpush, List.take_left' hlength, ?_⟩
  rw [List.length_append, hlength, List.length_drop]
  dsimp only
  omega

theorem removeSign_eq {x : ℤ} (hlow : -2 ^ 63 ≤ x) (hneg : x < 0) : removeSign x = x.natAbs := by
  rw [removeSign, Nat.mod_eq_of_lt (by omega)]
  omega

/-- `dump_integer` writes what `dump` gives, for every integer of 64 bits and whatever was
written before. -/
theorem dump_integer_writes {numberBuffer : Bytes}
    (hbuffer : numberBuffer.length = numberBufferSize) (signed : Bool) {x : ℤ}
    (hlow : if signed then -2 ^ 63 ≤ x else 0 ≤ x)
    (hhigh : if signed then x < 2 ^ 63 else x < 2 ^ 64) :
    ∃ text buffer, dump (.integer x) = .ok text ∧
      dumpInteger signed numberBuffer x = some (text, buffer) ∧
      buffer.length = numberBufferSize := by
  have hrange : x.natAbs < 2 ^ 64 := by cases signed <;> simp at hlow hhigh <;> omega
  have hdigits : countDigits x.natAbs ≤ 20 := by
    rw [countDigits_eq]
    exact (decimalLength_le_iff (by decide)).mpr (hrange.trans (by decide))
  suffices h : ∃ buffer, dumpInteger signed numberBuffer x = some (decimalInt x, buffer) ∧
      buffer.length = numberBufferSize by
    obtain ⟨buffer, hdump, hlength⟩ := h
    exact ⟨decimalInt x, buffer, rfl, hdump, hlength⟩
  rw [dumpInteger, decimalInt]
  by_cases hzero : x = 0
  · subst hzero
    exact ⟨numberBuffer, rfl, hbuffer⟩
  rw [if_neg hzero]
  by_cases hneg : signed = true ∧ ¬ 0 ≤ x
  · -- the sign is in front of the digits
    have habs := removeSign_eq (by simpa [hneg.1] using hlow) (not_le.mp hneg.2)
    have hsign : (numberBuffer.set 0 (charByte '-')).take 1 = [charByte '-'] := by
      cases numberBuffer with
      | nil => cases hbuffer
      | cons b rest => rfl
    obtain ⟨bufferPtr, hdump, htake, hlength⟩ := @dumpDigits_fill
      (numberBuffer.set 0 (charByte '-')) [charByte '-'] x.natAbs
      (by rw [List.length_set, hbuffer, List.length_singleton, numberBufferSize]; omega) hsign
    rw [List.length_singleton] at hdump htake
    refine ⟨bufferPtr.buffer, ?_, by rw [hlength, List.length_set, hbuffer]⟩
    simp only [if_pos hneg, habs, hdump]
    rw [if_pos (by rw [numberBufferSize]; omega), if_pos (not_le.mp hneg.2)]
    simp only [Option.bind_eq_bind, Option.bind_some, htake]
    rfl
  · have habs : x.toNat = x.natAbs := by cases signed <;> simp at hlow hneg <;> omega
    obtain ⟨bufferPtr, hdump, htake, hlength⟩ := @dumpDigits_fill numberBuffer [] x.natAbs
      (by rw [hbuffer, List.length_nil, numberBufferSize]; omega) rfl
    rw [List.length_nil, Nat.zero_add] at hdump htake
    refine ⟨bufferPtr.buffer, ?_, hlength.trans hbuffer⟩
    simp only [if_neg hneg, habs, hdump]
    rw [if_pos (by rw [numberBufferSize]; omega), if_neg (by omega)]
    simp only [Option.bind_eq_bind, Option.bind_some, htake]
    rfl

theorem dump_integer_writes_minimum :
    ∃ text buffer, dump (.integer (-9223372036854775808)) = .ok text ∧
      dumpInteger true (List.replicate 64 0x39) (-9223372036854775808) = some (text, buffer) ∧
      buffer.length = numberBufferSize :=
  dump_integer_writes rfl true (by decide) (by decide)

end Structlog.Json
