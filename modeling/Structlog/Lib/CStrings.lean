import Mathlib.Data.List.DropRight
import Mathlib.Data.List.GetD
import Structlog.Lib.Bytes

/-!
# Strings with a terminator

A C string is the characters before its terminator, and a pointer into it is a position, which is
the string from there on.  `strrchr` goes through it from the front, the terminator included, and
`std::find_first_of` with reverse iterators from the back.  Each finds where the longest suffix
begins that has none of the characters searched for (`lastStart`), the one as what comes after the
last occurrence, the other as the base of the iterator it stops at.
-/

namespace Structlog.Lib

/-! ## The last part of a list -/

section LastPart

variable {α : Type*}

/-- The longest suffix with none of the separators. -/
structure IsLastPart (seps s part : List α) : Prop where
  suffix : part <:+ s
  free : ∀ a ∈ part, a ∉ seps
  longest : ∀ t, t <:+ s → (∀ a ∈ t, a ∉ seps) → t <:+ part

/-- There is only one. -/
theorem IsLastPart.unique {seps s part part' : List α} (h : IsLastPart seps s part)
    (h' : IsLastPart seps s part') : part = part' :=
  (h'.longest part h.suffix h.free).eq_of_length_le (h.longest part' h'.suffix h'.free).length_le

theorem IsLastPart.of_free {seps s : List α} (h : ∀ a ∈ s, a ∉ seps) : IsLastPart seps s s :=
  ⟨List.suffix_rfl, h, fun _ ht _ => ht⟩

/-- What comes after the last separator. -/
theorem IsLastPart.of_append_cons {seps : List α} {c : α} (before : List α) {after : List α}
    (hc : c ∈ seps) (h : ∀ a ∈ after, a ∉ seps) :
    IsLastPart seps (before ++ c :: after) after := by
  refine ⟨(List.suffix_cons c after).trans (List.suffix_append before _), h, fun t ht hfree => ?_⟩
  rcases List.suffix_or_suffix_of_suffix ht (List.suffix_append before (c :: after)) with ht | ht
  · rcases List.suffix_cons_iff.mp ht with rfl | ht
    · exact absurd hc (hfree c List.mem_cons_self)
    · exact ht
  · exact absurd hc (hfree c (ht.subset List.mem_cons_self))

/-- Where the longest suffix begins on which `p` holds. -/
def lastStart (p : α → Bool) (s : List α) : ℕ := s.length - (s.rtakeWhile p).length

variable (p : α → Bool) (s : List α)

theorem lastStart_concat (a : α) :
    lastStart p (s ++ [a]) = if p a then lastStart p s else s.length + 1 := by
  unfold lastStart
  rw [List.rtakeWhile_concat, List.length_append, List.length_singleton]
  split_ifs
  · rw [List.length_append, List.length_singleton, Nat.add_sub_add_right]
  · rfl

theorem drop_lastStart : s.drop (lastStart p s) = s.rtakeWhile p :=
  (List.suffix_iff_eq_drop.mp (List.rtakeWhile_suffix p s)).symm

theorem rtakeWhile_append {t : List α} (h : ∀ a ∈ t, p a = true) :
    (s ++ t).rtakeWhile p = s.rtakeWhile p ++ t := by
  rw [List.rtakeWhile, List.reverse_append,
    List.takeWhile_append_of_pos fun a ha => h a (List.mem_reverse.mp ha), List.reverse_append,
    List.reverse_reverse, List.rtakeWhile]

/-- The suffix is the last part of the list. -/
theorem isLastPart_drop [DecidableEq α] (seps : List α) :
    IsLastPart seps s (s.drop (lastStart (· ∉ seps) s)) := by
  rw [drop_lastStart]
  refine ⟨List.rtakeWhile_suffix _ s, fun a ha => ?_, fun t ht hfree => ?_⟩
  · simpa using List.mem_rtakeWhile_imp ha
  · obtain ⟨before, rfl⟩ := ht
    rw [rtakeWhile_append _ _ fun a ha => decide_eq_true (hfree a ha)]
    exact List.suffix_append _ t

end LastPart

/-! ## C strings -/

/-- The characters before the terminator. -/
structure CString where
  chars : Bytes
  noTerminator : 0 ∉ chars

namespace CString

/-- The string that a pointer to these bytes is. -/
def ofBytes (bytes : Bytes) : CString where
  chars := bytes.takeWhile (· ≠ 0)
  noTerminator h := by simpa using List.mem_takeWhile_imp h

theorem chars_ofBytes {bytes : Bytes} (h : 0 ∉ bytes) : (ofBytes bytes).chars = bytes :=
  List.takeWhile_eq_self_iff.mpr fun _ hb => decide_eq_true fun hzero => h (hzero ▸ hb)

@[simp] theorem ofBytes_chars (s : CString) : ofBytes s.chars = s :=
  CString.mk.injEq .. ▸ chars_ofBytes s.noTerminator

/-- The string in memory. -/
def cells (s : CString) : Bytes := s.chars ++ [0]

/-- `sizeof` of an array initialised with the string. -/
def sizeof (s : CString) : ℕ := s.cells.length

def strlen (s : CString) : ℕ := s.chars.length

/-- The string at a pointer into the string. -/
def textAt (s : CString) (position : ℕ) : Bytes := s.chars.drop position

/-- The loop of `strrchr`, with the last occurrence up to here. -/
def strrchrLoop (c : UInt8) : Bytes → ℕ → Option ℕ → Option ℕ
  | [], _, rv => rv
  | b :: rest, i, rv => strrchrLoop c rest (i + 1) (if b = c then some i else rv)

/-- `strrchr`: where the character is for the last time, the terminator included. -/
def strrchr (s : CString) (c : UInt8) : Option ℕ := strrchrLoop c s.cells 0 none

/-- `std::find_first_of` from a reverse iterator on; it is given as its base, and its character
is the one before.  The end is that with the base `0`. -/
def findFirstOfReverse (s : CString) (set : Bytes) : ℕ → ℕ
  | 0 => 0
  | base + 1 => if s.cells.getD base 0 ∈ set then base + 1 else s.findFirstOfReverse set base

/-! ### Where the last part begins -/

/-- What comes after an occurrence, or the whole string. -/
def pastOccurrence : Option ℕ → ℕ
  | some rv => rv + 1
  | none => 0

/-- The loop keeps where the last part of the characters up to here begins. -/
theorem pastOccurrence_strrchrLoop (c : UInt8) {seen : Bytes} (rest : Bytes) {rv : Option ℕ}
    (h : pastOccurrence rv = lastStart (· ≠ c) seen) :
    pastOccurrence (strrchrLoop c rest seen.length rv) = lastStart (· ≠ c) (seen ++ rest) := by
  induction rest generalizing seen rv with
  | nil => rw [strrchrLoop, h, List.append_nil]
  | cons b rest ih =>
      have hnext : pastOccurrence (if b = c then some seen.length else rv) =
          lastStart (· ≠ c) (seen ++ [b]) := by
        rw [lastStart_concat]
        by_cases hb : b = c
        · rw [if_pos hb, if_neg (by simp [hb]), pastOccurrence]
        · rw [if_neg hb, if_pos (by simp [hb]), h]
      have hrest := ih hnext
      rw [List.length_append, List.length_singleton, List.append_assoc] at hrest
      exact hrest

/-- The terminator is no other character. -/
theorem pastOccurrence_strrchr (s : CString) {c : UInt8} (hc : c ≠ 0) :
    pastOccurrence (s.strrchr c) = lastStart (· ≠ c) s.chars := by
  have hloop := @pastOccurrence_strrchrLoop c [] s.cells none rfl
  rw [List.nil_append, cells, lastStart_concat, if_pos (by simpa using hc.symm)] at hloop
  exact hloop

/-- The iterator goes back through the characters that are not in the set. -/
theorem findFirstOfReverse_eq (s : CString) (set : Bytes) {base : ℕ} (h : base ≤ s.strlen) :
    s.findFirstOfReverse set base = lastStart (· ∉ set) (s.chars.take base) := by
  induction base with
  | zero => rfl
  | succ base ih =>
      have hlt : base < s.chars.length := h
      have hcell : s.cells.getD base 0 = s.chars[base] := by
        rw [cells, List.getD_append _ _ _ _ hlt, List.getD_eq_getElem _ _ hlt]
      rw [findFirstOfReverse, hcell, ih hlt.le, List.take_succ_eq_append_getElem hlt,
        lastStart_concat, List.length_take_of_le hlt.le]
      by_cases hset : s.chars[base] ∈ set
      · rw [if_pos hset, if_neg (by simp [hset])]
      · rw [if_neg hset, if_pos (by simp [hset])]

end CString

end Structlog.Lib
