import Structlog.Lib.Bytes

/-!
# Writing digits from the back

A number is often written into a buffer from its last digit to its first, two digits at a
time.  `Cursor` is the pointer that goes down; a write outside the buffer gives `none`.
`pushAll` writes a whole text, and `pushAll_eq` says where it then stands.  For numbers,
`decimal_hundred` takes the last two digits off.
-/

namespace Structlog.Lib

/-- A pointer into a buffer. -/
structure Cursor where
  buffer : Bytes
  position : ℕ
  deriving DecidableEq, Repr

namespace Cursor

/-- `*--out = b`. -/
def push (b : UInt8) (c : Cursor) : Option Cursor :=
  if 0 < c.position ∧ c.position ≤ c.buffer.length then
    some ⟨c.buffer.set (c.position - 1) b, c.position - 1⟩
  else none

/-- A text, from its last byte to its first. -/
def pushAll : Bytes → Cursor → Option Cursor
  | [], c => some c
  | b :: rest, c => c.pushAll rest >>= push b

theorem pushAll_append (s t : Bytes) (c : Cursor) :
    c.pushAll (s ++ t) = c.pushAll t >>= pushAll s := by
  induction s with
  | nil => simp [pushAll]
  | cons b s ih => simp [pushAll, ih, Option.bind_assoc]

@[simp] theorem pushAll_singleton (b : UInt8) (c : Cursor) : c.pushAll [b] = c.push b := rfl

theorem set_take_succ {buffer : Bytes} {k : ℕ} (h : k < buffer.length) (b : UInt8)
    (rest : Bytes) : (buffer.take (k + 1) ++ rest).set k b = buffer.take k ++ (b :: rest) := by
  rw [← List.take_append_getElem h, List.append_assoc, List.set_append_right _ _ (by simp)]
  have hlength : (buffer.take k).length = k := by
    rw [List.length_take]
    omega
  rw [hlength, Nat.sub_self]
  rfl

/-- Where there is room, the text stands before the pointer, and nothing else is changed. -/
theorem pushAll_eq {s : Bytes} {c : Cursor} (hroom : s.length ≤ c.position)
    (hinside : c.position ≤ c.buffer.length) :
    c.pushAll s = some ⟨c.buffer.take (c.position - s.length) ++ s ++ c.buffer.drop c.position,
      c.position - s.length⟩ := by
  induction s with
  | nil => simp [pushAll]
  | cons b s ih =>
      rw [List.length_cons] at hroom ⊢
      obtain ⟨k, hk⟩ : ∃ k, c.position - s.length = k + 1 :=
        Nat.exists_eq_succ_of_ne_zero (by omega)
      rw [pushAll, ih (by omega), Option.bind_eq_bind, Option.bind_some, push, hk,
        show c.position - (s.length + 1) = k by omega]
      rw [if_pos ⟨Nat.succ_pos k, by simp; omega⟩, Nat.add_sub_cancel, List.append_assoc,
        set_take_succ (by omega), List.append_assoc]
      rfl

end Cursor

/-! ## Two digits at a time -/

/-- The last two digits of a number that has three. -/
theorem decimal_hundred {n : ℕ} (h : 100 ≤ n) :
    decimal n = decimal (n / 100) ++
      [charByte (n % 100 / 10).digitChar, charByte (n % 100 % 10).digitChar] := by
  rw [decimal_of_le (show 10 ≤ n by omega), decimal_of_le (show 10 ≤ n / 10 by omega),
    Nat.div_div_eq_div_mul, List.append_assoc]
  have htens : n / 10 % 10 = n % 100 / 10 := by omega
  have hones : n % 10 = n % 100 % 10 := by omega
  rw [htens, hones]
  rfl

theorem decimal_two {n : ℕ} (h : 10 ≤ n) (hlt : n < 100) :
    decimal n = [charByte (n / 10).digitChar, charByte (n % 10).digitChar] := by
  rw [decimal_of_le h, decimal_of_lt (by omega)]
  rfl

/-- The last `k` digits of a number that has more. -/
theorem decimalLength_div {n k : ℕ} (h : 10 ^ k ≤ n) :
    decimalLength n = decimalLength (n / 10 ^ k) + k := by
  induction k generalizing n with
  | zero => simp
  | succ k ih =>
      have hten : 10 ≤ n := by
        rw [Nat.pow_succ] at h
        exact (Nat.le_mul_of_pos_left 10 (Nat.pow_pos (by decide))).trans h
      have hdiv : 10 ^ k ≤ n / 10 := (Nat.le_div_iff_mul_le (by decide)).mpr h
      rw [← length_decimal, decimal_of_le hten, List.length_append, length_decimal, ih hdiv,
        Nat.div_div_eq_div_mul, Nat.pow_succ, Nat.mul_comm (10 ^ k) 10]
      rfl

end Structlog.Lib
