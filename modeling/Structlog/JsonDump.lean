import Structlog.Json

/-!
# What `dump` accepts and writes

`dump` throws exactly when some string in the value is not UTF-8
(`dump_isOk_iff`), and what it writes is one line: every byte is at least
`0x20` (`printable_of_dump`).

The first half of the file is about strings.  `decode` is a table; each of its
states is a `Utf8.Stage`, and `decode_state` says that it follows
`Stage.next`.  The code point matters to `dump_escaped` only below `0x80`, where
it is the byte itself; `CodeFloor` is what keeps the code point of a longer
character above that.
-/

namespace Structlog

open Lib Lib.Utf8

namespace Json

/-! ## The decoder -/

/-- The number `decode` gives a stage. -/
def stageCode : Stage → ℕ
  | .between => 0
  | .oneTail => 2
  | .twoTails => 3
  | .afterE0 => 4
  | .afterED => 5
  | .afterF0 => 6
  | .threeTails => 7
  | .afterF4 => 8

/-- The table follows the stages; state 1 is the rejecting one. -/
theorem decode_state (σ : Stage) (codepoint : ℕ) (b : UInt8) :
    (decode (stageCode σ) codepoint b).1 = ((σ.next b).map stageCode).getD 1 := by
  have htable : ∀ σ : Stage, ∀ n < 256, ((utf8Rows.getD (stageCode σ) []).getD
      (utf8Class (UInt8.ofNat n)) 1) = ((σ.next (UInt8.ofNat n)).map stageCode).getD 1 := by
    intro σ
    cases σ <;> decide +kernel
  exact forall_byte (p := fun b => (decode (stageCode σ) codepoint b).1 =
    ((σ.next b).map stageCode).getD 1) (htable σ) b

theorem stageCode_eq_zero {σ : Stage} : stageCode σ = 0 ↔ σ = .between := by
  cases σ <;> simp [stageCode]

theorem stageCode_ne_one (σ : Stage) : stageCode σ ≠ 1 := by
  cases σ <;> simp [stageCode]

/-- What the code point must have reached so that the character ends at
`0x80` or above. -/
def CodeFloor : Stage → ℕ → Prop
  | .between, _ => True
  | .oneTail, codepoint => 2 ≤ codepoint
  | .twoTails, codepoint => 1 ≤ codepoint
  | .threeTails, codepoint => 1 ≤ codepoint
  | .afterE0, _ => True
  | .afterED, codepoint => 1 ≤ codepoint
  | .afterF0, _ => True
  | .afterF4, codepoint => 1 ≤ codepoint

theorem decode_codepoint_tail {state : ℕ} (hstate : state ≠ 0) (codepoint : ℕ) (b : UInt8) :
    64 * codepoint ≤ (decode state codepoint b).2 ∧
      b.toNat &&& 0x3F ≤ (decode state codepoint b).2 := by
  have hvalue : (decode state codepoint b).2 = b.toNat &&& 0x3F ||| codepoint <<< 6 := by
    simp [decode, hstate]
  rw [hvalue]
  refine ⟨?_, Nat.left_le_or⟩
  calc 64 * codepoint = codepoint <<< 6 := by rw [Nat.shiftLeft_eq]; omega
    _ ≤ _ := Nat.right_le_or

/-- The first byte leaves the code point of a longer character high enough. -/
theorem codeFloor_first (codepoint : ℕ) (b : UInt8) {τ : Stage}
    (hnext : Stage.between.next b = some τ) : CodeFloor τ (decode 0 codepoint b).2 := by
  have htable : ∀ n < 256, ∀ τ ∈ [Stage.oneTail, .twoTails, .threeTails, .afterED, .afterF4],
      Stage.between.next (UInt8.ofNat n) = some τ →
      (if τ = .oneTail then 2 else 1) ≤ (0xFF >>> utf8Class (UInt8.ofNat n)) &&&
        (UInt8.ofNat n).toNat := by
    decide +kernel
  have hfirst := fun hmem => forall_byte (p := fun b => Stage.between.next b = some τ →
    (if τ = .oneTail then 2 else 1) ≤ (0xFF >>> utf8Class b) &&& b.toNat)
    (fun n hn => htable n hn τ hmem) b hnext
  cases τ with
  | between => trivial
  | afterE0 => trivial
  | afterF0 => trivial
  | oneTail => simpa [CodeFloor, decode] using hfirst (by decide)
  | twoTails => simpa [CodeFloor, decode] using hfirst (by decide)
  | threeTails => simpa [CodeFloor, decode] using hfirst (by decide)
  | afterED => simpa [CodeFloor, decode] using hfirst (by decide)
  | afterF4 => simpa [CodeFloor, decode] using hfirst (by decide)

/-- The bits that a later byte of a character brings. -/
theorem low_bits (n : ℕ) : n &&& 0x3F = n % 64 := Nat.and_two_pow_sub_one_eq_mod n 6

theorem low_bits_afterE0 (b : UInt8) : 0xA0 ≤ b ∧ b ≤ 0xBF → 2 ≤ b.toNat &&& 0x3F := by
  rintro ⟨hlow, hhigh⟩
  have hlow : 0xA0 ≤ b.toNat := UInt8.le_iff_toNat_le.mp hlow
  have hhigh : b.toNat ≤ 0xBF := UInt8.le_iff_toNat_le.mp hhigh
  rw [low_bits]
  omega

theorem low_bits_afterF0 (b : UInt8) : 0x90 ≤ b ∧ b ≤ 0xBF → 1 ≤ b.toNat &&& 0x3F := by
  rintro ⟨hlow, hhigh⟩
  have hlow : 0x90 ≤ b.toNat := UInt8.le_iff_toNat_le.mp hlow
  have hhigh : b.toNat ≤ 0xBF := UInt8.le_iff_toNat_le.mp hhigh
  rw [low_bits]
  omega

/-- A later byte keeps the floor, and ends a longer character at `0x80` or
above. -/
theorem codeFloor_later {σ τ : Stage} (hσ : σ ≠ .between) {codepoint : ℕ}
    (hfloor : CodeFloor σ codepoint) {b : UInt8} (hnext : σ.next b = some τ) :
    CodeFloor τ (decode (stageCode σ) codepoint b).2 ∧
      (τ = .between → 0x80 ≤ (decode (stageCode σ) codepoint b).2) := by
  obtain ⟨hhigh, hlow⟩ := decode_codepoint_tail (mt stageCode_eq_zero.mp hσ) codepoint b
  cases σ with
  | between => exact absurd rfl hσ
  | afterE0 =>
      simp only [Stage.next] at hnext
      split_ifs at hnext with hb
      obtain rfl := Option.some.inj hnext
      exact ⟨(low_bits_afterE0 b hb).trans hlow, by simp⟩
  | afterF0 =>
      simp only [Stage.next] at hnext
      split_ifs at hnext with hb
      obtain rfl := Option.some.inj hnext
      exact ⟨(low_bits_afterF0 b hb).trans hlow, by simp⟩
  | _ =>
      -- the code point so far is shifted up by six bits
      simp only [CodeFloor] at hfloor
      simp only [Stage.next] at hnext
      split_ifs at hnext with hb
      obtain rfl := Option.some.inj hnext
      simp only [CodeFloor]
      first
        | exact ⟨trivial, fun _ => by omega⟩
        | exact ⟨by omega, by simp⟩

/-! ## Strings -/

/-- What a byte of a text is written as. -/
def escapeByte (b : UInt8) : Bytes := writeCodepoint b.toNat b

def escape (s : Bytes) : Bytes := s.flatMap escapeByte

theorem writeCodepoint_high {codepoint : ℕ} (h : 0x80 ≤ codepoint) (b : UInt8) :
    writeCodepoint codepoint b = [b] := by
  unfold writeCodepoint
  repeat rw [if_neg (by omega)]

theorem escapeByte_high {b : UInt8} (h : 0x80 ≤ b) : escapeByte b = [b] :=
  writeCodepoint_high (UInt8.le_iff_toNat_le.mp h) b

theorem decode_ascii {b : UInt8} (h : b ≤ 0x7F) (codepoint : ℕ) :
    (decode 0 codepoint b).2 = b.toNat := by
  have hbits : 0xFF &&& b.toNat = b.toNat := by
    rw [Nat.and_comm]
    exact Nat.and_two_pow_sub_one_of_lt_two_pow (n := 8) b.toNat_lt
  simp [decode, utf8Class, h, hbits]

/-- A byte that is not ASCII is only ever read as part of a longer character. -/
theorem high_of_next {σ τ : Stage} {b : UInt8} (hnext : σ.next b = some τ)
    (hlong : σ ≠ .between ∨ τ ≠ .between) : 0x80 ≤ b := by
  cases σ with
  | between =>
      by_contra hlow
      have hascii : b ≤ 0x7F := by
        rw [UInt8.le_iff_toNat_le] at hlow ⊢
        exact Nat.le_of_lt_succ (not_le.mp hlow)
      obtain rfl := Option.some.inj ((next_ascii hascii).symm.trans hnext)
      exact hlong.elim (absurd rfl) (absurd rfl)
  | oneTail | twoTails | threeTails | afterE0 | afterED | afterF0 | afterF4 =>
      simp only [Stage.next, Option.ite_none_right_eq_some] at hnext
      exact UInt8.le_trans (by decide) hnext.1.1

/-- What is written for the byte that completes a character. -/
theorem writeCodepoint_accepted {σ : Stage} {codepoint : ℕ} (hfloor : CodeFloor σ codepoint)
    {b : UInt8} (hnext : σ.next b = some .between) :
    writeCodepoint (decode (stageCode σ) codepoint b).2 b = escapeByte b := by
  by_cases hσ : σ = .between
  · subst hσ
    have hb : b ≤ 0x7F := by
      simp only [Stage.next] at hnext
      split_ifs at hnext <;> simp_all
    rw [escapeByte]
    exact congrArg (writeCodepoint · b) (decode_ascii hb codepoint)
  · rw [writeCodepoint_high ((codeFloor_later hσ hfloor hnext).2 rfl),
      escapeByte_high (high_of_next hnext (.inl hσ))]

theorem codeFloor_next {σ τ : Stage} {codepoint : ℕ} (hfloor : CodeFloor σ codepoint)
    {b : UInt8} (hnext : σ.next b = some τ) :
    CodeFloor τ (decode (stageCode σ) codepoint b).2 := by
  by_cases hσ : σ = .between
  · subst hσ
    exact codeFloor_first codepoint b hnext
  · exact (codeFloor_later hσ hfloor hnext).1

/-- One turn of the loop on a byte that may follow. -/
theorem dumpEscapedFrom_cons {σ τ : Stage} {codepoint : ℕ} (hfloor : CodeFloor σ codepoint)
    {b : UInt8} (hnext : σ.next b = some τ) (i : ℕ) (last : UInt8) (written rest : Bytes) :
    dumpEscapedFrom i (stageCode σ) codepoint last written (b :: rest) =
      dumpEscapedFrom (i + 1) (stageCode τ) (decode (stageCode σ) codepoint b).2 b
        (written ++ escapeByte b) rest := by
  have hstate : (decode (stageCode σ) codepoint b).1 = stageCode τ := by
    rw [decode_state, hnext]
    rfl
  rw [dumpEscapedFrom]
  simp only [hstate]
  by_cases hτ : τ = .between
  · subst hτ
    rw [if_pos (show stageCode .between = 0 from rfl), writeCodepoint_accepted hfloor hnext]
    rfl
  · rw [if_neg (mt stageCode_eq_zero.mp hτ), if_neg (stageCode_ne_one τ),
      escapeByte_high (high_of_next hnext (.inr hτ))]

/-- One turn of the loop on a byte that may not. -/
theorem dumpEscapedFrom_cons_none {σ : Stage} {b : UInt8} (hnext : σ.next b = none)
    (i codepoint : ℕ) (last : UInt8) (written rest : Bytes) :
    ∃ what, dumpEscapedFrom i (stageCode σ) codepoint last written (b :: rest) =
      .error (.std what) := by
  have hstate : (decode (stageCode σ) codepoint b).1 = 1 := by
    rw [decode_state, hnext]
    rfl
  rw [dumpEscapedFrom]
  simp only [hstate, one_ne_zero, if_false, if_true]
  exact ⟨_, rfl⟩

/-- The loop from any stage: it succeeds exactly on what may follow there. -/
theorem dumpEscapedFrom_spec (s : Bytes) (i codepoint : ℕ) (last : UInt8) (written : Bytes)
    (σ : Stage) (hfloor : CodeFloor σ codepoint) :
    (σ.Rest s → dumpEscapedFrom i (stageCode σ) codepoint last written s =
      .ok (written ++ escape s)) ∧
    (¬ σ.Rest s → ∃ what, dumpEscapedFrom i (stageCode σ) codepoint last written s =
      .error (.std what)) := by
  induction s generalizing i codepoint last written σ with
  | nil =>
      rw [rest_nil_iff, dumpEscapedFrom]
      refine ⟨fun h => ?_, fun h => ⟨_, if_neg (mt stageCode_eq_zero.mp h)⟩⟩
      simp [h, stageCode, escape]
  | cons b rest ih =>
      rw [rest_cons_iff]
      cases hnext : σ.next b with
      | none => exact ⟨by simp, fun _ => dumpEscapedFrom_cons_none hnext i codepoint last _ rest⟩
      | some τ =>
          have hsplit : written ++ escape (b :: rest) =
              written ++ escapeByte b ++ escape rest := by simp [escape]
          rw [dumpEscapedFrom_cons hfloor hnext, hsplit]
          simp only [Option.some.injEq, exists_eq_left']
          exact ih _ _ _ _ τ (codeFloor_next hfloor hnext)

theorem dumpEscaped_of_text {s : Bytes} (h : Text s) : dumpEscaped s = .ok (escape s) :=
  (dumpEscapedFrom_spec s 0 0 0 [] .between trivial).1 h

theorem dumpEscaped_of_not_text {s : Bytes} (h : ¬ Text s) :
    ∃ what, dumpEscaped s = .error (.std what) :=
  (dumpEscapedFrom_spec s 0 0 0 [] .between trivial).2 h

/-! ## Values -/

mutual

/-- Every string in the value, keys included, is UTF-8. -/
def validText : Json → Bool
  | string s => Text s
  | array elements => validElements elements
  | object members => validMembers members
  | _ => true

def validElements : List Json → Bool
  | [] => true
  | element :: rest => validText element && validElements rest

def validMembers : List (Bytes × Json) → Bool
  | [] => true
  | (key, value) :: rest => decide (Text key) && validText value && validMembers rest

end

theorem validMembers_eq_true {members : List (Bytes × Json)} :
    validMembers members = true ↔
      ∀ entry ∈ members, Text entry.1 ∧ validText entry.2 = true := by
  induction members with
  | nil => simp [validMembers]
  | cons entry rest ih =>
      obtain ⟨key, value⟩ := entry
      simp [validMembers, ih, and_assoc]

/-- No control characters: the text is on one line. -/
def Printable (text : Bytes) : Prop := ∀ b ∈ text, 0x20 ≤ b

instance (text : Bytes) : Decidable (Printable text) :=
  List.decidableBAll (fun b => 0x20 ≤ b) text

theorem Printable.append {first second : Bytes} (h₁ : Printable first) (h₂ : Printable second) :
    Printable (first ++ second) := by
  intro b hb
  rcases List.mem_append.mp hb with hb | hb
  · exact h₁ b hb
  · exact h₂ b hb

theorem printable_escape (s : Bytes) : Printable (escape s) := by
  have htable : ∀ n < 256, Printable (escapeByte (UInt8.ofNat n)) := by decide +kernel
  intro c hc
  obtain ⟨b, -, hcb⟩ := List.mem_flatMap.mp hc
  exact forall_byte (p := fun b => Printable (escapeByte b)) htable b c hcb

theorem printable_decimal (n : ℕ) : Printable (decimal n) := by
  intro b hb
  rw [UInt8.le_iff_toNat_le]
  exact (by decide : (0x20 : UInt8).toNat ≤ 48).trans (mem_decimal_bounds hb).1

theorem printable_decimalInt (n : ℤ) : Printable (decimalInt n) := by
  unfold decimalInt
  split_ifs
  · exact Printable.append (show Printable [charByte '-'] by decide) (printable_decimal _)
  · exact printable_decimal _

/-- The two outcomes of a dump: a printable line when `valid`, otherwise a
`std::exception`. -/
def DumpOutcome (valid : Bool) (result : Except Thrown Bytes) : Prop :=
  (valid = true → ∃ line, result = .ok line ∧ Printable line) ∧
    (valid = false → ∃ what, result = .error (.std what))

theorem DumpOutcome.ok {line : Bytes} (h : Printable line) : DumpOutcome true (.ok line) :=
  ⟨fun _ => ⟨line, rfl, h⟩, by simp⟩

/-- Two dumps one after the other, joined by some printable text. -/
theorem DumpOutcome.bind {v w : Bool} {first second : Except Thrown Bytes}
    (h₁ : DumpOutcome v first) (h₂ : DumpOutcome w second) {f : Bytes → Bytes → Bytes}
    (hf : ∀ a b, Printable a → Printable b → Printable (f a b)) :
    DumpOutcome (v && w) (do let a ← first; let b ← second; return f a b) := by
  cases v with
  | false =>
      obtain ⟨what, rfl⟩ := h₁.2 rfl
      exact ⟨by simp, fun _ => ⟨what, rfl⟩⟩
  | true =>
      obtain ⟨a, rfl, ha⟩ := h₁.1 rfl
      cases w with
      | false =>
          obtain ⟨what, rfl⟩ := h₂.2 rfl
          exact ⟨by simp, fun _ => ⟨what, rfl⟩⟩
      | true =>
          obtain ⟨b, rfl, hb⟩ := h₂.1 rfl
          exact .ok (hf a b ha hb)

theorem DumpOutcome.map {v : Bool} {result : Except Thrown Bytes} (h : DumpOutcome v result)
    {f : Bytes → Bytes} (hf : ∀ a, Printable a → Printable (f a)) :
    DumpOutcome v (do let a ← result; return f a) := by
  cases v with
  | false =>
      obtain ⟨what, rfl⟩ := h.2 rfl
      exact ⟨by simp, fun _ => ⟨what, rfl⟩⟩
  | true =>
      obtain ⟨a, rfl, ha⟩ := h.1 rfl
      exact .ok (hf a ha)

theorem quoted_outcome (s : Bytes) : DumpOutcome (decide (Text s)) (quoted s) := by
  have hs : DumpOutcome (decide (Text s)) (dumpEscaped s) := by
    by_cases h : Text s
    · simpa [dumpEscaped_of_text h, h] using DumpOutcome.ok (printable_escape s)
    · obtain ⟨what, hwhat⟩ := dumpEscaped_of_not_text h
      exact ⟨by simp [h], fun _ => ⟨what, hwhat⟩⟩
  exact hs.map fun a ha => .append (.append (by decide) ha) (by decide)

theorem printable_intercalate {separator : Bytes} (hsep : Printable separator)
    {parts : List Bytes} (h : ∀ part ∈ parts, Printable part) :
    Printable (separator.intercalate parts) := by
  induction parts with
  | nil => simp [Printable]
  | cons part rest ih =>
      cases rest with
      | nil => simpa using h part (by simp)
      | cons next more =>
          rw [List.intercalate_cons_cons]
          exact .append (.append (h part (by simp)) hsep)
            (ih fun other hother => h other (List.mem_cons_of_mem _ hother))

theorem printable_dumpBinary (bytes : Bytes) (subtype : Option ℕ) :
    Printable (dumpBinary bytes subtype) := by
  have hbody : Printable ((ascii ",").intercalate (bytes.map fun b => decimal b.toNat)) := by
    apply printable_intercalate (by decide)
    intro part hpart
    obtain ⟨b, -, rfl⟩ := List.mem_map.mp hpart
    exact printable_decimal _
  have hopening := (show Printable (ascii "\x7b\"bytes\":[") by decide).append hbody
  cases subtype with
  | none => exact .append (.append (hopening.append (by decide)) (by decide)) (by decide)
  | some t =>
      exact .append (.append (hopening.append (by decide)) (printable_decimal t)) (by decide)

mutual

theorem dump_outcome : (j : Json) → DumpOutcome j.validText j.dump
  | null => .ok (by decide)
  | boolean true => .ok (by decide)
  | boolean false => .ok (by decide)
  | integer n => .ok (printable_decimalInt n)
  | float x => .ok fun b hb => (x.printable b hb).1
  | string s => quoted_outcome s
  | array elements =>
      (dumpElements_outcome elements).map fun a ha => .append (.append (by decide) ha) (by decide)
  | object members =>
      (dumpMembers_outcome members).map fun a ha => .append (.append (by decide) ha) (by decide)
  | binary bytes subtype => .ok (printable_dumpBinary bytes subtype)
  | discarded => .ok (by decide)

theorem dumpElements_outcome :
    (elements : List Json) → DumpOutcome (validElements elements) (dumpElements elements)
  | [] => .ok (by decide)
  | [element] => by simpa [validElements, dumpElements] using dump_outcome element
  | element :: next :: rest =>
      (dump_outcome element).bind (dumpElements_outcome (next :: rest)) fun a b ha hb =>
        .append (.append ha (by decide)) hb

theorem dumpMembers_outcome :
    (members : List (Bytes × Json)) → DumpOutcome (validMembers members) (dumpMembers members)
  | [] => .ok (by decide)
  | [(key, value)] => by
      have := (quoted_outcome key).bind (dump_outcome value) fun a b ha hb =>
        .append (.append ha (show Printable (ascii ":") by decide)) hb
      simpa [validMembers, dumpMembers] using this
  | (key, value) :: next :: rest => by
      have hhead := (quoted_outcome key).bind (dump_outcome value) fun a b ha hb =>
        .append (.append ha (show Printable (ascii ":") by decide)) hb
      have := hhead.bind (dumpMembers_outcome (next :: rest)) fun a b ha hb =>
        .append (.append ha (show Printable (ascii ",") by decide)) hb
      simpa [validMembers, dumpMembers] using this

end

end Json

end Structlog
