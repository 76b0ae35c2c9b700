import Structlog.Lib.Bytes

/-!
# UTF-8 text

`Text` is the syntax of well-formed UTF-8: a sequence of characters of one to
four bytes, without overlong forms, surrogates or values above `U+10FFFF`.

`Stage` is where a reader stands that sees one byte at a time, and `Stage.next`
what one byte does to it.  `Stage.accepts_iff` says that such a reader ends
between characters exactly on the well-formed texts, so a byte-wise decoder is
correct as soon as its transitions are those of `Stage.next`.

`encode` writes a code point; what it writes is one character.
-/

namespace Structlog.Lib.Utf8

/-- A continuation byte. -/
def Tail (b : UInt8) : Prop := 0x80 ≤ b ∧ b ≤ 0xBF

instance (b : UInt8) : Decidable (Tail b) := inferInstanceAs (Decidable (_ ∧ _))

/-- The first two bytes of a three-byte character. -/
def LeadThree (a b : UInt8) : Prop :=
  (a = 0xE0 ∧ 0xA0 ≤ b ∧ b ≤ 0xBF) ∨ (0xE1 ≤ a ∧ a ≤ 0xEC ∧ Tail b) ∨
    (a = 0xED ∧ 0x80 ≤ b ∧ b ≤ 0x9F) ∨ (0xEE ≤ a ∧ a ≤ 0xEF ∧ Tail b)

/-- The first two bytes of a four-byte character. -/
def LeadFour (a b : UInt8) : Prop :=
  (a = 0xF0 ∧ 0x90 ≤ b ∧ b ≤ 0xBF) ∨ (0xF1 ≤ a ∧ a ≤ 0xF3 ∧ Tail b) ∨
    (a = 0xF4 ∧ 0x80 ≤ b ∧ b ≤ 0x8F)

/-- The encodings of one character. -/
inductive Character : Bytes → Prop
  | one {a : UInt8} (ha : a ≤ 0x7F) : Character [a]
  | two {a b : UInt8} (ha : 0xC2 ≤ a ∧ a ≤ 0xDF) (hb : Tail b) : Character [a, b]
  | three {a b c : UInt8} (hab : LeadThree a b) (hc : Tail c) : Character [a, b, c]
  | four {a b c d : UInt8} (hab : LeadFour a b) (hc : Tail c) (hd : Tail d) :
      Character [a, b, c, d]

/-- Well-formed UTF-8. -/
inductive Text : Bytes → Prop
  | nil : Text []
  | cons {c rest : Bytes} (hc : Character c) (hrest : Text rest) : Text (c ++ rest)

/-! ## Reading byte by byte -/

/-- The stages of a reader inside or between characters. -/
inductive Stage
  | between
  | oneTail
  | twoTails
  | threeTails
  | afterE0
  | afterED
  | afterF0
  | afterF4
  deriving DecidableEq, Repr

/-- The stage after byte `b`, or `none` when no text goes on with `b`. -/
def Stage.next : Stage → UInt8 → Option Stage
  | between, b =>
      if b ≤ 0x7F then some between
      else if 0xC2 ≤ b ∧ b ≤ 0xDF then some oneTail
      else if b = 0xE0 then some afterE0
      else if b = 0xED then some afterED
      else if 0xE1 ≤ b ∧ b ≤ 0xEF then some twoTails
      else if b = 0xF0 then some afterF0
      else if 0xF1 ≤ b ∧ b ≤ 0xF3 then some threeTails
      else if b = 0xF4 then some afterF4
      else none
  | oneTail, b => if Tail b then some between else none
  | twoTails, b => if Tail b then some oneTail else none
  | threeTails, b => if Tail b then some twoTails else none
  | afterE0, b => if 0xA0 ≤ b ∧ b ≤ 0xBF then some oneTail else none
  | afterED, b => if 0x80 ≤ b ∧ b ≤ 0x9F then some oneTail else none
  | afterF0, b => if 0x90 ≤ b ∧ b ≤ 0xBF then some twoTails else none
  | afterF4, b => if 0x80 ≤ b ∧ b ≤ 0x8F then some twoTails else none

/-- The reader ends between characters. -/
def Stage.accepts : Stage → Bytes → Bool
  | σ, [] => σ = between
  | σ, b :: rest =>
      match σ.next b with
      | some τ => τ.accepts rest
      | none => false

/-- A byte with property `p`, and then `more`. -/
def After (p : UInt8 → Prop) (more : Bytes → Prop) (s : Bytes) : Prop :=
  ∃ b r, s = b :: r ∧ p b ∧ more r

/-- What may follow at a stage. -/
def Stage.Rest : Stage → Bytes → Prop
  | between => Text
  | oneTail => After Tail Text
  | twoTails => After Tail (After Tail Text)
  | threeTails => After Tail (After Tail (After Tail Text))
  | afterE0 => After (fun b => 0xA0 ≤ b ∧ b ≤ 0xBF) (After Tail Text)
  | afterED => After (fun b => 0x80 ≤ b ∧ b ≤ 0x9F) (After Tail Text)
  | afterF0 => After (fun b => 0x90 ≤ b ∧ b ≤ 0xBF) (After Tail (After Tail Text))
  | afterF4 => After (fun b => 0x80 ≤ b ∧ b ≤ 0x8F) (After Tail (After Tail Text))

theorem after_cons_iff (p : UInt8 → Prop) (more : Bytes → Prop) (b : UInt8) (s : Bytes) :
    After p more (b :: s) ↔ p b ∧ more s := by
  constructor
  · rintro ⟨_, _, h, hp, hmore⟩
    obtain ⟨rfl, rfl⟩ := List.cons_eq_cons.mp h
    exact ⟨hp, hmore⟩
  · rintro ⟨hp, hmore⟩
    exact ⟨b, s, rfl, hp, hmore⟩

/-! ### Between characters

The stage reached from `between` depends only on the first byte. -/

theorem next_ascii {a : UInt8} (ha : a ≤ 0x7F) : Stage.between.next a = some .between := by
  simp [Stage.next, ha]

theorem next_two {a : UInt8} (ha : 0xC2 ≤ a ∧ a ≤ 0xDF) :
    Stage.between.next a = some .oneTail := by
  have hlow : ¬ a ≤ 0x7F := by
    simp only [UInt8.le_iff_toNat_le, UInt8.reduceToNat] at *
    omega
  simp only [Stage.next, if_neg hlow, if_pos ha]

theorem next_twoTails {a : UInt8} (ha : 0xE1 ≤ a ∧ a ≤ 0xEF) (hne : a ≠ 0xED) :
    Stage.between.next a = some .twoTails := by
  have hlow : ¬ a ≤ 0x7F ∧ ¬ (0xC2 ≤ a ∧ a ≤ 0xDF) ∧ a ≠ 0xE0 := by
    simp only [UInt8.le_iff_toNat_le, UInt8.reduceToNat, ne_eq, ← UInt8.toNat_inj] at *
    omega
  simp only [Stage.next, if_neg hlow.1, if_neg hlow.2.1, if_neg hlow.2.2, if_neg hne, if_pos ha]

theorem next_threeTails {a : UInt8} (ha : 0xF1 ≤ a ∧ a ≤ 0xF3) :
    Stage.between.next a = some .threeTails := by
  have hlow : ¬ a ≤ 0x7F ∧ ¬ (0xC2 ≤ a ∧ a ≤ 0xDF) ∧ a ≠ 0xE0 ∧ a ≠ 0xED ∧
      ¬ (0xE1 ≤ a ∧ a ≤ 0xEF) ∧ a ≠ 0xF0 := by
    simp only [UInt8.le_iff_toNat_le, UInt8.reduceToNat, ne_eq, ← UInt8.toNat_inj] at *
    omega
  obtain ⟨h₁, h₂, h₃, h₄, h₅, h₆⟩ := hlow
  simp only [Stage.next, if_neg h₁, if_neg h₂, if_neg h₃, if_neg h₄, if_neg h₅, if_neg h₆,
    if_pos ha]

/-- Reading one byte of a text. -/
theorem text_cons_iff (b : UInt8) (s : Bytes) :
    Text (b :: s) ↔ ∃ τ, Stage.between.next b = some τ ∧ τ.Rest s := by
  constructor
  · intro h
    -- The rule for the character says what its first byte is, and so the stage after it.
    generalize hbs : b :: s = whole at h
    cases h with
    | nil => simp at hbs
    | cons hc hrest =>
        cases hc with
        | one ha =>
            obtain ⟨rfl, rfl⟩ := List.cons_eq_cons.mp hbs
            exact ⟨_, next_ascii ha, hrest⟩
        | two ha hb =>
            obtain ⟨rfl, rfl⟩ := List.cons_eq_cons.mp hbs
            exact ⟨_, next_two ha, _, _, rfl, hb, hrest⟩
        | three hab hc =>
            obtain ⟨rfl, rfl⟩ := List.cons_eq_cons.mp hbs
            rcases hab with ⟨rfl, hb⟩ | ⟨hlow, hhigh, hb⟩ | ⟨rfl, hb⟩ | ⟨hlow, hhigh, hb⟩
            · exact ⟨.afterE0, by decide, _, _, rfl, hb, _, _, rfl, hc, hrest⟩
            · refine ⟨.twoTails, next_twoTails ?_ ?_, _, _, rfl, hb, _, _, rfl, hc, hrest⟩ <;>
                simp only [UInt8.le_iff_toNat_le, UInt8.reduceToNat, ne_eq,
                  ← UInt8.toNat_inj] at * <;> omega
            · exact ⟨.afterED, by decide, _, _, rfl, hb, _, _, rfl, hc, hrest⟩
            · refine ⟨.twoTails, next_twoTails ?_ ?_, _, _, rfl, hb, _, _, rfl, hc, hrest⟩ <;>
                simp only [UInt8.le_iff_toNat_le, UInt8.reduceToNat, ne_eq,
                  ← UInt8.toNat_inj] at * <;> omega
        | four hab hc hd =>
            obtain ⟨rfl, rfl⟩ := List.cons_eq_cons.mp hbs
            rcases hab with ⟨rfl, hb⟩ | ⟨hlow, hhigh, hb⟩ | ⟨rfl, hb⟩
            · exact ⟨.afterF0, by decide, _, _, rfl, hb, _, _, rfl, hc, _, _, rfl, hd, hrest⟩
            · exact ⟨.threeTails, next_threeTails ⟨hlow, hhigh⟩, _, _, rfl, hb, _, _, rfl, hc,
                _, _, rfl, hd, hrest⟩
            · exact ⟨.afterF4, by decide, _, _, rfl, hb, _, _, rfl, hc, _, _, rfl, hd, hrest⟩
  · rintro ⟨τ, hτ, hrest⟩
    -- The stage says how many bytes are to come, and in which range the next one is.
    simp only [Stage.next] at hτ
    split_ifs at hτ with h₁ h₂ h₃ h₄ h₅ h₆ h₇ h₈ <;> obtain rfl := Option.some.inj hτ
    · exact Text.cons (.one h₁) hrest
    · obtain ⟨t, r, rfl, ht, hr⟩ := hrest
      exact Text.cons (.two h₂ ht) hr
    · obtain ⟨t, _, rfl, ht, u, r, rfl, hu, hr⟩ := hrest
      exact Text.cons (.three (.inl ⟨h₃, ht⟩) hu) hr
    · obtain ⟨t, _, rfl, ht, u, r, rfl, hu, hr⟩ := hrest
      exact Text.cons (.three (.inr (.inr (.inl ⟨h₄, ht⟩))) hu) hr
    · obtain ⟨t, _, rfl, ht, u, r, rfl, hu, hr⟩ := hrest
      have hlead : LeadThree b t := by
        by_cases hb : b ≤ 0xEC
        · exact .inr (.inl ⟨h₅.1, hb, ht⟩)
        · refine .inr (.inr (.inr ⟨?_, h₅.2, ht⟩))
          simp only [UInt8.le_iff_toNat_le, UInt8.reduceToNat, ← UInt8.toNat_inj] at *
          omega
      exact Text.cons (.three hlead hu) hr
    · obtain ⟨t, _, rfl, ht, u, _, rfl, hu, v, r, rfl, hv, hr⟩ := hrest
      exact Text.cons (.four (.inl ⟨h₆, ht⟩) hu hv) hr
    · obtain ⟨t, _, rfl, ht, u, _, rfl, hu, v, r, rfl, hv, hr⟩ := hrest
      exact Text.cons (.four (.inr (.inl ⟨h₇.1, h₇.2, ht⟩)) hu hv) hr
    · obtain ⟨t, _, rfl, ht, u, _, rfl, hu, v, r, rfl, hv, hr⟩ := hrest
      exact Text.cons (.four (.inr (.inr ⟨h₈, ht⟩)) hu hv) hr

/-! ### Any stage -/

theorem rest_nil_iff (σ : Stage) : σ.Rest [] ↔ σ = .between := by
  cases σ <;> simp [Stage.Rest, After, Text.nil]

theorem rest_cons_iff (σ : Stage) (b : UInt8) (s : Bytes) :
    σ.Rest (b :: s) ↔ ∃ τ, σ.next b = some τ ∧ τ.Rest s := by
  cases σ with
  | between => exact text_cons_iff b s
  | oneTail => by_cases h : Tail b <;> simp [Stage.Rest, Stage.next, after_cons_iff, h]
  | twoTails => by_cases h : Tail b <;> simp [Stage.Rest, Stage.next, after_cons_iff, h]
  | threeTails => by_cases h : Tail b <;> simp [Stage.Rest, Stage.next, after_cons_iff, h]
  | afterE0 => by_cases h : 0xA0 ≤ b ∧ b ≤ 0xBF <;> simp [Stage.Rest, Stage.next, after_cons_iff, h]
  | afterED => by_cases h : 0x80 ≤ b ∧ b ≤ 0x9F <;> simp [Stage.Rest, Stage.next, after_cons_iff, h]
  | afterF0 => by_cases h : 0x90 ≤ b ∧ b ≤ 0xBF <;> simp [Stage.Rest, Stage.next, after_cons_iff, h]
  | afterF4 => by_cases h : 0x80 ≤ b ∧ b ≤ 0x8F <;> simp [Stage.Rest, Stage.next, after_cons_iff, h]

theorem accepts_iff (σ : Stage) (s : Bytes) : σ.accepts s = true ↔ σ.Rest s := by
  induction s generalizing σ with
  | nil => simp [Stage.accepts, rest_nil_iff]
  | cons b rest ih =>
      rw [rest_cons_iff, Stage.accepts]
      cases hnext : σ.next b with
      | none => simp
      | some τ => simp [ih]

instance (s : Bytes) : Decidable (Text s) :=
  decidable_of_iff (Stage.between.accepts s = true) (accepts_iff .between s)

/-! ## Characters and texts -/

theorem Character.ne_nil {c : Bytes} (hc : Character c) : c ≠ [] := by
  cases hc <;> exact List.cons_ne_nil _ _

theorem Tail.high {b : UInt8} (h : Tail b) : 0x80 ≤ b := h.1

theorem LeadThree.high {a b : UInt8} (h : LeadThree a b) : 0x80 ≤ a ∧ 0x80 ≤ b := by
  simp only [LeadThree, Tail, UInt8.le_iff_toNat_le, UInt8.reduceToNat, ← UInt8.toNat_inj] at *
  omega

theorem LeadFour.high {a b : UInt8} (h : LeadFour a b) : 0x80 ≤ a ∧ 0x80 ≤ b := by
  simp only [LeadFour, Tail, UInt8.le_iff_toNat_le, UInt8.reduceToNat, ← UInt8.toNat_inj] at *
  omega

/-- A character is one byte of ASCII, or has none. -/
theorem Character.ascii_or_high {c : Bytes} (hc : Character c) :
    (∃ a, c = [a] ∧ a ≤ 0x7F) ∨ ∀ b ∈ c, 0x80 ≤ b := by
  cases hc with
  | one ha => exact .inl ⟨_, rfl, ha⟩
  | two ha hb =>
      right
      simpa using ⟨UInt8.le_trans (by decide) ha.1, hb.high⟩
  | three hab hc =>
      right
      simpa using ⟨hab.high.1, hab.high.2, hc.high⟩
  | four hab hc hd =>
      right
      simpa using ⟨hab.high.1, hab.high.2, hc.high, hd.high⟩

/-! ## Code points -/

/-- Code points that are not surrogates. -/
def Scalar (n : ℕ) : Prop := n ≤ 0x10FFFF ∧ ¬ (0xD800 ≤ n ∧ n ≤ 0xDFFF)

/-- The bytes of a code point. -/
def encode (n : ℕ) : Bytes :=
  if n < 0x80 then [UInt8.ofNat n]
  else if n ≤ 0x7FF then [UInt8.ofNat (0xC0 + n / 64), UInt8.ofNat (0x80 + n % 64)]
  else if n ≤ 0xFFFF then
    [UInt8.ofNat (0xE0 + n / 4096), UInt8.ofNat (0x80 + n / 64 % 64), UInt8.ofNat (0x80 + n % 64)]
  else
    [UInt8.ofNat (0xF0 + n / 262144), UInt8.ofNat (0x80 + n / 4096 % 64),
      UInt8.ofNat (0x80 + n / 64 % 64), UInt8.ofNat (0x80 + n % 64)]

theorem ofNat_le_ofNat {m n : ℕ} (h : m ≤ n) (hn : n < 256) : UInt8.ofNat m ≤ UInt8.ofNat n := by
  rw [UInt8.le_iff_toNat_le, UInt8.toNat_ofNat_of_lt' (Nat.lt_of_le_of_lt h hn),
    UInt8.toNat_ofNat_of_lt' hn]
  exact h

theorem ofNat_mem_range (low high : ℕ) {n : ℕ} (h : low ≤ n ∧ n ≤ high) (hhigh : high < 256) :
    UInt8.ofNat low ≤ UInt8.ofNat n ∧ UInt8.ofNat n ≤ UInt8.ofNat high :=
  ⟨ofNat_le_ofNat h.1 (Nat.lt_of_le_of_lt h.2 hhigh), ofNat_le_ofNat h.2 hhigh⟩

/-- The low six bits under the mark of a later byte. -/
theorem tail_ofNat (n : ℕ) : Tail (UInt8.ofNat (0x80 + n % 64)) :=
  ofNat_mem_range 0x80 0xBF (by omega) (by decide)

theorem leadThree_encode {n : ℕ} (hlow : 0x800 ≤ n) (hhigh : n ≤ 0xFFFF)
    (hsurrogate : ¬ (0xD800 ≤ n ∧ n ≤ 0xDFFF)) :
    LeadThree (UInt8.ofNat (0xE0 + n / 4096)) (UInt8.ofNat (0x80 + n / 64 % 64)) := by
  by_cases hfirst : n < 0x1000
  · have hzero : n / 4096 = 0 := by omega
    rw [hzero]
    exact .inl ⟨rfl, ofNat_mem_range 0xA0 0xBF (by omega) (by decide)⟩
  by_cases hbefore : n < 0xD000
  · have hlead := @ofNat_mem_range 0xE1 0xEC (0xE0 + n / 4096) (by omega) (by decide)
    exact .inr (.inl ⟨hlead.1, hlead.2, tail_ofNat _⟩)
  by_cases hbelow : n < 0xD800
  · have hthirteen : n / 4096 = 13 := by omega
    rw [hthirteen]
    exact .inr (.inr (.inl ⟨rfl, ofNat_mem_range 0x80 0x9F (by omega) (by decide)⟩))
  · have hlead := @ofNat_mem_range 0xEE 0xEF (0xE0 + n / 4096) (by omega) (by decide)
    exact .inr (.inr (.inr ⟨hlead.1, hlead.2, tail_ofNat _⟩))

theorem leadFour_encode {n : ℕ} (hlow : 0x10000 ≤ n) (hhigh : n ≤ 0x10FFFF) :
    LeadFour (UInt8.ofNat (0xF0 + n / 262144)) (UInt8.ofNat (0x80 + n / 4096 % 64)) := by
  by_cases hfirst : n < 0x40000
  · have hzero : n / 262144 = 0 := by omega
    rw [hzero]
    exact .inl ⟨rfl, ofNat_mem_range 0x90 0xBF (by omega) (by decide)⟩
  by_cases hbefore : n < 0x100000
  · have hlead := @ofNat_mem_range 0xF1 0xF3 (0xF0 + n / 262144) (by omega)
      (by decide)
    exact .inr (.inl ⟨hlead.1, hlead.2, tail_ofNat _⟩)
  · have hfour : n / 262144 = 4 := by omega
    rw [hfour]
    exact .inr (.inr ⟨rfl, ofNat_mem_range 0x80 0x8F (by omega) (by decide)⟩)

/-- A code point is written as one character. -/
theorem encode_character {n : ℕ} (h : Scalar n) : Character (encode n) := by
  obtain ⟨hmax, hsurrogate⟩ := h
  unfold encode
  split_ifs with h₁ h₂ h₃
  · exact .one (ofNat_le_ofNat (n := 0x7F) (Nat.le_of_lt_succ h₁) (by decide))
  · exact .two (ofNat_mem_range 0xC2 0xDF (by omega) (by decide)) (tail_ofNat _)
  · exact .three (leadThree_encode (not_le.mp h₂) h₃ hsurrogate) (tail_ofNat _)
  · exact .four (leadFour_encode (not_le.mp h₃) hmax) (tail_ofNat _) (tail_ofNat _)

end Structlog.Lib.Utf8
