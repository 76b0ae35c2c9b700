import Structlog.JsonStrings

/-!
# Reading numbers

`scan_number` walks the table of its comment: it takes what the automaton of numbers
takes, the longest piece there is, and is done where that is a number
(`scanNumber_munch`).  The type it has then is told by a point, an exponent or a sign
in what it took (`typeAfter_init`).
-/

namespace Structlog.Json.Lexer

open Lib Lib.Utf8 Lib.JsonSyntax

variable {size : ℕ} {config : LexerConfig}

/-! ## The labels and the table -/

/-- The state of the table at a label. -/
def NumberLabel.stage : NumberLabel → NumberStage
  | .minus => .minus
  | .zero => .zero
  | .any1 => .any1
  | .decimal1 => .decimal1
  | .decimal2 => .decimal2
  | .exponent => .exponent
  | .sign => .sign
  | .any2 => .any2

/-- The label of a state other than `init`. -/
def labelOf : NumberStage → NumberLabel
  | .init | .minus => .minus
  | .zero => .zero
  | .any1 => .any1
  | .decimal1 => .decimal1
  | .decimal2 => .decimal2
  | .exponent => .exponent
  | .sign => .sign
  | .any2 => .any2

/-- The type of the number behind a state. -/
def leave : NumberStage → TokenType → TokenType
  | .minus, _ => .valueInteger
  | .decimal1, _ => .valueFloat
  | .exponent, _ => .valueFloat
  | _, numberType => numberType

/-- What is added for a byte of a number. -/
def localize (config : LexerConfig) (c : UInt8) : UInt8 :=
  if c = 0x2E then config.decimalPointChar else c

theorem localize_digit {c : UInt8} (h : IsDigit c) : localize config c = c :=
  if_neg fun hc => absurd (hc ▸ h) (by decide)

theorem digit_of_ne {c : UInt8} (hne : c ≠ 0x30) : 0x31 ≤ c ∧ c ≤ 0x39 ↔ IsDigit c := by
  simp only [IsDigit, ne_eq, UInt8.le_iff_toNat_le, ← UInt8.toNat_inj, UInt8.reduceToNat] at *
  omega

/-- A `goto` follows the table. -/
theorem scanNumberAt_next {l : Lexer} {c : UInt8} (hc : l.get.current = some c)
    {label : NumberLabel} {τ : NumberStage} (hnext : label.stage.next c = some τ) (n : ℕ)
    (numberType : TokenType) :
    scanNumberAt config (n + 1) label numberType l =
      scanNumberAt config n (labelOf τ) (leave label.stage numberType)
        (l.get.add (localize config c)) := by
  have hzero : localize config 0x30 = 0x30 := rfl
  have hpoint : localize config 0x2E = config.decimalPointChar := rfl
  have hletter (h : c = 0x65 ∨ c = 0x45) : localize config c = c := by
    rcases h with rfl | rfl <;> rfl
  have hsign (h : c = 0x2B ∨ c = 0x2D) : localize config c = c := by
    rcases h with rfl | rfl <;> rfl
  have hdigit : (0x30 ≤ c ∧ c ≤ 0x39) = IsDigit c := rfl
  -- label by label, since each has its own order of the comparisons
  cases label with
  | minus =>
      simp only [NumberLabel.stage, NumberStage.next] at hnext
      simp only [scanNumberAt, hc]
      split_ifs at hnext with h₁ h₂ <;> obtain rfl := Option.some.inj hnext
      · subst h₁
        rfl
      · rw [if_neg h₁, if_pos ((digit_of_ne h₁).mpr h₂), localize_digit h₂]
        rfl
  | zero =>
      simp only [NumberLabel.stage, NumberStage.next] at hnext
      simp only [scanNumberAt, hc]
      split_ifs at hnext with h₁ h₂ <;> obtain rfl := Option.some.inj hnext
      · subst h₁
        rfl
      · rw [if_neg h₁, if_pos h₂, hletter h₂]
        rfl
  | any1 =>
      simp only [NumberLabel.stage, NumberStage.next] at hnext
      simp only [scanNumberAt, hc, hdigit]
      split_ifs at hnext with h₁ h₂ h₃ <;> obtain rfl := Option.some.inj hnext
      · rw [if_pos h₁, localize_digit h₁]
        rfl
      · rw [if_neg h₁, if_pos h₂, h₂, hpoint]
        rfl
      · rw [if_neg h₁, if_neg h₂, if_pos h₃, hletter h₃]
        rfl
  | decimal1 =>
      simp only [NumberLabel.stage, NumberStage.next] at hnext
      simp only [scanNumberAt, hc, hdigit]
      split_ifs at hnext with h₁
      obtain rfl := Option.some.inj hnext
      rw [if_pos h₁, localize_digit h₁]
      rfl
  | decimal2 =>
      simp only [NumberLabel.stage, NumberStage.next] at hnext
      simp only [scanNumberAt, hc, hdigit]
      split_ifs at hnext with h₁ h₂ <;> obtain rfl := Option.some.inj hnext
      · rw [if_pos h₁, localize_digit h₁]
        rfl
      · rw [if_neg h₁, if_pos h₂, hletter h₂]
        rfl
  | exponent =>
      simp only [NumberLabel.stage, NumberStage.next] at hnext
      simp only [scanNumberAt, hc, hdigit]
      split_ifs at hnext with h₁ h₂ <;> obtain rfl := Option.some.inj hnext
      · rw [if_pos h₁, hsign h₁]
        rfl
      · rw [if_neg h₁, if_pos h₂, localize_digit h₂]
        rfl
  | sign =>
      simp only [NumberLabel.stage, NumberStage.next] at hnext
      simp only [scanNumberAt, hc, hdigit]
      split_ifs at hnext with h₁
      obtain rfl := Option.some.inj hnext
      rw [if_pos h₁, localize_digit h₁]
      rfl
  | any2 =>
      simp only [NumberLabel.stage, NumberStage.next] at hnext
      simp only [scanNumberAt, hc, hdigit]
      split_ifs at hnext with h₁
      obtain rfl := Option.some.inj hnext
      rw [if_pos h₁, localize_digit h₁]
      rfl

/-- Where the table has no next state the number is done, or it is an error. -/
theorem scanNumberAt_stop {l : Lexer} {label : NumberLabel}
    (hstop : ∀ c, l.get.current = some c → label.stage.next c = none) (n : ℕ)
    (numberType : TokenType) :
    (label.stage.accepting = true →
      scanNumberAt config (n + 1) label numberType l = scanNumberDone config numberType l.get) ∧
    (label.stage.accepting = false →
      (scanNumberAt config (n + 1) label numberType l).1 = .parseError) := by
  cases hc : l.get.current with
  | none =>
      -- at the end of the input the label alone decides
      cases label <;>
        simp [scanNumberAt, hc, NumberLabel.stage, NumberStage.accepting]
  | some c =>
      have hnext := hstop c hc
      have hdigit : (0x30 ≤ c ∧ c ≤ 0x39) = IsDigit c := rfl
      cases label with
      | minus =>
          simp only [NumberLabel.stage, NumberStage.next] at hnext
          split_ifs at hnext with h₁ h₂
          simp [scanNumberAt, hc, NumberLabel.stage, NumberStage.accepting, h₁, h₂, digit_of_ne h₁]
      | zero =>
          simp only [NumberLabel.stage, NumberStage.next] at hnext
          split_ifs at hnext with h₁ h₂
          simp [scanNumberAt, hc, NumberLabel.stage, NumberStage.accepting, h₁, h₂]
      | any1 =>
          simp only [NumberLabel.stage, NumberStage.next] at hnext
          split_ifs at hnext with h₁ h₂ h₃
          simp only [scanNumberAt, hc, hdigit, if_neg h₁, if_neg h₂, if_neg h₃]
          simp [NumberLabel.stage, NumberStage.accepting]
      | decimal1 =>
          simp only [NumberLabel.stage, NumberStage.next] at hnext
          split_ifs at hnext with h₁
          simp only [scanNumberAt, hc, hdigit, if_neg h₁]
          simp [NumberLabel.stage, NumberStage.accepting]
      | decimal2 =>
          simp only [NumberLabel.stage, NumberStage.next] at hnext
          split_ifs at hnext with h₁ h₂
          simp only [scanNumberAt, hc, hdigit, if_neg h₁, if_neg h₂]
          simp [NumberLabel.stage, NumberStage.accepting]
      | exponent =>
          simp only [NumberLabel.stage, NumberStage.next] at hnext
          split_ifs at hnext with h₁ h₂
          simp only [scanNumberAt, hc, hdigit, if_neg h₁, if_neg h₂]
          simp [NumberLabel.stage, NumberStage.accepting]
      | sign =>
          simp only [NumberLabel.stage, NumberStage.next] at hnext
          split_ifs at hnext with h₁
          simp only [scanNumberAt, hc, hdigit, if_neg h₁]
          simp [NumberLabel.stage, NumberStage.accepting]
      | any2 =>
          simp only [NumberLabel.stage, NumberStage.next] at hnext
          split_ifs at hnext with h₁
          simp only [scanNumberAt, hc, hdigit, if_neg h₁]
          simp [NumberLabel.stage, NumberStage.accepting]

theorem stage_labelOf {σ τ : NumberStage} {c : UInt8} (h : σ.next c = some τ) :
    (labelOf τ).stage = τ := by
  cases τ with
  | init =>
      cases σ <;> simp only [NumberStage.next] at h <;> split_ifs at h <;> cases h
  | _ => rfl

/-- The type of the number behind `taken`. -/
def typeAfter : NumberStage → TokenType → Bytes → TokenType
  | _, numberType, [] => numberType
  | σ, numberType, c :: rest =>
      match σ.next c with
      | some τ => typeAfter τ (leave σ numberType) rest
      | none => numberType

/-- The labels walk the automaton as far as it goes. -/
theorem scanNumberAt_munch {l : Lexer} {text : Bytes} (h : l.Ready size text)
    {label : NumberLabel} {τ : NumberStage} {taken rest : Bytes}
    (hmunch : label.stage.munch text = (τ, taken, rest)) {n : ℕ} (hn : text.length < n)
    (numberType : TokenType) :
    ∃ l' : Lexer, l'.Read size rest.head? rest.tail ∧
      l'.tokenBuffer = l.tokenBuffer ++ taken.map (localize config) ∧
      (τ.accepting = true → scanNumberAt config n label numberType l =
        scanNumberDone config (typeAfter label.stage numberType taken) l') ∧
      (τ.accepting = false → (scanNumberAt config n label numberType l).1 = .parseError) := by
  -- on what is left; a byte that the automaton refuses is given back by `scan_number_done`
  induction text generalizing l label τ taken n numberType with
  | nil =>
      obtain ⟨n, rfl⟩ := Nat.exists_eq_add_of_lt hn
      obtain ⟨rfl, rfl, rfl⟩ : label.stage = τ ∧ [] = taken ∧ [] = rest := by
        simpa [NumberStage.munch] using hmunch
      have hread := h.get_nil
      have hstop (c : UInt8) (hc : l.get.current = some c) : label.stage.next c = none := by
        rw [hread.current] at hc
        cases hc
      obtain ⟨hdone, herror⟩ := @scanNumberAt_stop config l label hstop (0 + n) numberType
      exact ⟨l.get, hread, by simp, hdone, herror⟩
  | cons c text ih =>
      obtain ⟨n, rfl⟩ := Nat.exists_eq_add_of_lt (Nat.zero_lt_of_lt hn)
      have hread := h.get_cons
      rw [NumberStage.munch] at hmunch
      cases hnext : label.stage.next c with
      | none =>
          rw [hnext] at hmunch
          obtain ⟨rfl, rfl, rfl⟩ : label.stage = τ ∧ [] = taken ∧ c :: text = rest := by
            simpa using hmunch
          have hstop (d : UInt8) (hd : l.get.current = some d) : label.stage.next d = none := by
            rw [hread.current] at hd
            obtain rfl := Option.some.inj hd
            exact hnext
          obtain ⟨hdone, herror⟩ := @scanNumberAt_stop config l label hstop (0 + n) numberType
          exact ⟨l.get, hread, by simp, hdone, herror⟩
      | some υ =>
          have hυ := stage_labelOf hnext
          rcases hm : υ.munch text with ⟨τ', taken', rest'⟩
          simp only [hnext, hm] at hmunch
          obtain ⟨rfl, rfl, rfl⟩ : τ' = τ ∧ c :: taken' = taken ∧ rest' = rest := by
            simpa using hmunch
          have hlt : text.length < 0 + n := by
            rw [List.length_cons] at hn
            omega
          obtain ⟨l', hread', hbuffer, hdone, herror⟩ :=
            ih (hread.add (localize config c)).ready (by rw [hυ, hm]) hlt
              (leave label.stage numberType)
          refine ⟨l', hread', by simp [hbuffer, add], fun hτ => ?_, fun hτ => ?_⟩
          · rw [scanNumberAt_next hread.current hnext, hdone hτ, typeAfter, hnext, hυ]
          · rw [scanNumberAt_next hread.current hnext, herror hτ]

/-! ## The type of a number -/

/-- A point or an exponent. -/
def Marked (text : Bytes) : Prop := 0x2E ∈ text ∨ 0x65 ∈ text ∨ 0x45 ∈ text

instance (text : Bytes) : Decidable (Marked text) := inferInstanceAs (Decidable (_ ∨ _ ∨ _))

/-- The type `scan_number` has at `scan_number_done`. -/
def numberType (text : Bytes) : TokenType :=
  if Marked text then .valueFloat
  else if text.head? = some 0x2D then .valueInteger
  else .valueUnsigned

theorem marked_cons {c : UInt8} (h : c ≠ 0x2E ∧ c ≠ 0x65 ∧ c ≠ 0x45) (text : Bytes) :
    Marked (c :: text) ↔ Marked text := by
  simp [Marked, h.1.symm, h.2.1.symm, h.2.2.symm]

theorem digit_ne_mark {c : UInt8} (h : IsDigit c) : c ≠ 0x2E ∧ c ≠ 0x65 ∧ c ≠ 0x45 := by
  refine ⟨?_, ?_, ?_⟩ <;> rintro rfl <;> exact absurd h (by decide)

theorem localize_unmarked {text : Bytes} (h : ¬ Marked text) :
    text.map (localize config) = text := by
  refine (List.map_congr_left fun c hc => ?_).trans (List.map_id text)
  refine if_neg fun hpoint => h (.inl ?_)
  rwa [← hpoint]

/-- A float stays one. -/
theorem typeAfter_float {σ : NumberStage} (hinit : σ ≠ .init) (hminus : σ ≠ .minus)
    (text : Bytes) : typeAfter σ .valueFloat text = .valueFloat := by
  induction text generalizing σ with
  | nil => rfl
  | cons c text ih =>
      rw [typeAfter]
      cases hnext : σ.next c with
      | none => rfl
      | some τ =>
          have hleave : leave σ .valueFloat = .valueFloat := by cases σ <;> trivial
          have hτ : τ ≠ .init ∧ τ ≠ .minus := by
            constructor <;> rintro rfl <;> cases σ <;> simp only [NumberStage.next] at hnext <;>
              split_ifs at hnext <;> trivial
          simp only [hleave]
          exact ih hτ.1 hτ.2

theorem typeAfter_mark {σ τ : NumberStage} (hσ : σ = .decimal1 ∨ σ = .exponent) {text : Bytes}
    (hrun : σ.run text = some τ) (hτ : τ.accepting = true) (numberType : TokenType) :
    typeAfter σ numberType text = .valueFloat := by
  cases text with
  | nil =>
      obtain rfl := Option.some.inj hrun
      rcases hσ with rfl | rfl <;> cases hτ
  | cons c text =>
      rw [NumberStage.run] at hrun
      rw [typeAfter]
      cases hnext : σ.next c with
      | none =>
          rw [hnext] at hrun
          cases hrun
      | some υ =>
          have hleave : leave σ numberType = .valueFloat := by rcases hσ with rfl | rfl <;> rfl
          have hυ : υ ≠ .init ∧ υ ≠ .minus := by
            rcases hσ with rfl | rfl <;> simp only [NumberStage.next] at hnext <;>
              split_ifs at hnext <;> obtain rfl := Option.some.inj hnext <;> decide
          simp only [hleave]
          exact typeAfter_float hυ.1 hυ.2 text

theorem typeAfter_whole {σ τ : NumberStage} (hσ : σ = .zero ∨ σ = .any1) {text : Bytes}
    (hrun : σ.run text = some τ) (hτ : τ.accepting = true) (numberType : TokenType) :
    typeAfter σ numberType text = if Marked text then .valueFloat else numberType := by
  induction text generalizing σ with
  | nil => simp [typeAfter, Marked]
  | cons c text ih =>
      rw [NumberStage.run] at hrun
      have hleave : leave σ numberType = numberType := by rcases hσ with rfl | rfl <;> rfl
      -- a point or an exponent makes it a float for good
      have hmark (υ : NumberStage) (hυ : υ = .decimal1 ∨ υ = .exponent)
          (hnext : σ.next c = some υ) (hmarked : Marked (c :: text)) :
          typeAfter σ numberType (c :: text) =
            if Marked (c :: text) then .valueFloat else numberType := by
        rw [hnext] at hrun
        rw [typeAfter, hnext, if_pos hmarked]
        exact typeAfter_mark hυ hrun hτ _
      cases hnext : σ.next c with
      | none =>
          rw [hnext] at hrun
          cases hrun
      | some υ =>
          by_cases hdigit : IsDigit c
          · obtain rfl : υ = .any1 := by
              have hne := digit_ne_mark hdigit
              rcases hσ with rfl | rfl <;> simp only [NumberStage.next] at hnext <;>
                split_ifs at hnext <;> simp_all
            rw [hnext] at hrun
            simp only [typeAfter, hnext, hleave, marked_cons (digit_ne_mark hdigit)]
            exact ih (.inr rfl) hrun
          · by_cases hpoint : c = 0x2E
            · subst hpoint
              refine hmark .decimal1 (.inl rfl) ?_ (.inl List.mem_cons_self)
              rcases hσ with rfl | rfl <;> rfl
            · have hletter : (c = 0x65 ∨ c = 0x45) ∧ υ = .exponent := by
                rcases hσ with rfl | rfl <;> simp only [NumberStage.next] at hnext <;>
                  split_ifs at hnext <;> simp_all
              refine hmark υ (.inr hletter.2) hnext ?_
              rcases hletter.1 with rfl | rfl
              · exact .inr (.inl List.mem_cons_self)
              · exact .inr (.inr List.mem_cons_self)

/-- The type of a number is told by its bytes. -/
theorem typeAfter_init {τ : NumberStage} {text : Bytes}
    (hrun : NumberStage.init.run text = some τ) (hτ : τ.accepting = true) :
    typeAfter .init .valueUnsigned text = numberType text := by
  have hfirst {c : UInt8} {σ : NumberStage} {rest : Bytes} {ty : TokenType}
      (hnext : (if c = 0x30 then some NumberStage.zero
        else if IsDigit c then some .any1 else none) = some σ)
      (hrun : σ.run rest = some τ) :
      typeAfter σ ty rest = if Marked (c :: rest) then .valueFloat else ty := by
    have hdigit : IsDigit c := by
      split_ifs at hnext with h₁ h₂
      · exact h₁ ▸ (by decide)
      · exact h₂
    have hσ : σ = .zero ∨ σ = .any1 := by
      split_ifs at hnext <;> obtain rfl := Option.some.inj hnext <;> simp
    rw [typeAfter_whole hσ hrun hτ]
    simp only [marked_cons (digit_ne_mark hdigit)]
  cases text with
  | nil =>
      obtain rfl := Option.some.inj hrun
      cases hτ
  | cons c text =>
      rw [NumberStage.run] at hrun
      -- behind a minus sign the magnitude is read as it is without one
      by_cases hminus : c = 0x2D
      · subst hminus
        simp only [NumberStage.next, if_true] at hrun
        have hmarked := @marked_cons 0x2D (by decide) text
        cases text with
        | nil =>
            obtain rfl := Option.some.inj hrun
            cases hτ
        | cons d text =>
            rw [NumberStage.run] at hrun
            cases hnext : NumberStage.minus.next d with
            | none =>
                rw [hnext] at hrun
                cases hrun
            | some σ =>
                rw [hnext] at hrun
                simp only [typeAfter, NumberStage.next, if_true, leave, numberType, hmarked,
                  List.head?_cons]
                rw [NumberStage.next] at hnext
                simp only [hnext]
                exact hfirst hnext hrun
      · cases hnext : NumberStage.init.next c with
        | none =>
            rw [hnext] at hrun
            cases hrun
        | some σ =>
            rw [hnext] at hrun
            have hhead : ¬ (c :: text).head? = some 0x2D := by simpa using hminus
            rw [numberType, if_neg hhead, typeAfter, hnext]
            simp only [leave]
            rw [NumberStage.next, if_neg hminus] at hnext
            exact hfirst hnext hrun

/-! ## A whole number -/

theorem scanNumber_eq {c : UInt8} {σ : NumberStage} (hnext : NumberStage.init.next c = some σ)
    (l : Lexer) :
    scanNumber config c l =
      scanNumberAt config l.reset.turns (labelOf σ) .valueUnsigned (l.reset.add c) := by
  simp only [NumberStage.next] at hnext
  rw [scanNumber]
  split_ifs at hnext ⊢ <;> obtain rfl := Option.some.inj hnext <;> rfl

/-- `scan_number` takes what the automaton takes. -/
theorem scanNumber_munch {l : Lexer} {c : UInt8} {text : Bytes} (h : l.Read size (some c) text)
    {σ : NumberStage} (hnext : NumberStage.init.next c = some σ) {τ : NumberStage}
    {taken rest : Bytes} (hmunch : NumberStage.init.munch (c :: text) = (τ, taken, rest)) :
    ∃ l' : Lexer, l'.Read size rest.head? rest.tail ∧
      l'.tokenBuffer = taken.map (localize config) ∧
      (τ.accepting = true →
        scanNumber config c l = scanNumberDone config (numberType taken) l') ∧
      (τ.accepting = false → (scanNumber config c l).1 = .parseError) := by
  have hσ := stage_labelOf hnext
  -- no number begins with a decimal point
  have hlocal : localize config c = c := by
    refine if_neg ?_
    rintro rfl
    cases hnext
  have hrun := NumberStage.run_munch .init (c :: text)
  rw [NumberStage.munch, hnext] at hmunch
  rcases hm : σ.munch text with ⟨τ', taken', rest'⟩
  simp only [hm] at hmunch
  obtain ⟨rfl, rfl, rfl⟩ : τ' = τ ∧ c :: taken' = taken ∧ rest' = rest := by simpa using hmunch
  have hturns : text.length < l.reset.turns := by
    rw [h.reset.ready.turns]
    exact Nat.lt_succ_self _
  obtain ⟨l', hread, hbuffer, hdone, herror⟩ :=
    @scanNumberAt_munch size config (l.reset.add c) text (h.reset.add c).ready (labelOf σ) τ' taken'
      rest' (by rw [hσ, hm]) _ hturns .valueUnsigned
  refine ⟨l', hread, ?_, fun hτ => ?_, fun hτ => ?_⟩
  · rw [hbuffer, List.map_cons, hlocal]
    rfl
  · rw [scanNumber_eq hnext, hdone hτ, ← @typeAfter_init τ' (c :: taken') _ hτ, typeAfter, hnext,
      hσ]
    · simp only [leave]
    · simpa [NumberStage.munch, hnext, hm] using hrun
  · rw [scanNumber_eq hnext, herror hτ]

end Structlog.Json.Lexer
