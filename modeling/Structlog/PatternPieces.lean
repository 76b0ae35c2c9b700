import Structlog.PatternFormatter

/-!
# The pieces of a pattern

Compiling a pattern is split in two: finding its pieces, which has nothing to do with
handlers or the clock, and making a formatter of each (`compilePattern_eq`).
-/

namespace Structlog

open Lib

inductive Piece
  | literal (text : Bytes)
  | spec (flag : UInt8) (padding : PaddingInfo)

/-- The loop in `compile_pattern_`, whatever `handle_flag_` does. -/
def compileLoopWith {α : Type*} (handleFlag : UInt8 → PaddingInfo → List α)
    (aggregate : Bytes → α) : ℕ → Option Bytes → Bytes → List α
  | 0, userChars, _ => userChars.toList.map aggregate
  | _ + 1, userChars, [] => userChars.toList.map aggregate
  | rounds + 1, userChars, c :: rest =>
      if c = charByte '%' then
        let (padding, rest') := handlePadspec rest
        match rest' with
        | [] => userChars.toList.map aggregate
        | flag :: rest'' =>
            userChars.toList.map aggregate ++ handleFlag flag padding ++
              compileLoopWith handleFlag aggregate rounds none rest''
      else compileLoopWith handleFlag aggregate rounds (some (userChars.getD [] ++ [c])) rest

def pieces (pattern : Bytes) : List Piece :=
  compileLoopWith (fun flag padding => [.spec flag padding]) .literal pattern.length none pattern

/-- The formatters for a piece. -/
def Piece.compile {α : Type*} (handleFlag : UInt8 → PaddingInfo → List α)
    (aggregate : Bytes → α) : Piece → List α
  | .literal text => [aggregate text]
  | .spec flag padding => handleFlag flag padding

/-- The flags of a pattern. -/
def usedFlags (pattern : Bytes) : List UInt8 :=
  (pieces pattern).filterMap fun
    | .literal _ => none
    | .spec flag _ => some flag

theorem mem_usedFlags {pattern : Bytes} {flag : UInt8} :
    flag ∈ usedFlags pattern ↔ ∃ padding, .spec flag padding ∈ pieces pattern := by
  constructor
  · intro h
    obtain ⟨piece, hpiece, hflag⟩ := List.mem_filterMap.mp h
    cases piece with
    | literal text => cases hflag
    | spec flag' padding =>
        obtain rfl : flag' = flag := Option.some.inj hflag
        exact ⟨padding, hpiece⟩
  · rintro ⟨padding, hpiece⟩
    exact List.mem_filterMap.mpr ⟨.spec flag padding, hpiece, rfl⟩

theorem compileLoopWith_eq {α : Type*} (handleFlag : UInt8 → PaddingInfo → List α)
    (aggregate : Bytes → α) (rounds : ℕ) (userChars : Option Bytes) (pattern : Bytes) :
    compileLoopWith handleFlag aggregate rounds userChars pattern =
      (compileLoopWith (fun flag padding => [.spec flag padding]) .literal rounds userChars
        pattern).flatMap (Piece.compile handleFlag aggregate) := by
  have huser (userChars : Option Bytes) : userChars.toList.map aggregate =
      (userChars.toList.map Piece.literal).flatMap (Piece.compile handleFlag aggregate) := by
    cases userChars with
    | none => rfl
    | some text => simp [Piece.compile]
  induction rounds generalizing userChars pattern with
  | zero => exact huser userChars
  | succ rounds ih =>
      cases pattern with
      | nil => exact huser userChars
      | cons c rest =>
          rw [compileLoopWith, compileLoopWith]
          split_ifs
          · rcases handlePadspec rest with ⟨padding, _ | ⟨flag, rest'⟩⟩
            · exact huser userChars
            · dsimp only
              rw [ih, huser, List.flatMap_append, List.flatMap_append, List.flatMap_singleton]
              rfl
          · exact ih _ rest

theorem compileLoop_eq (now : ℤ) (rounds : ℕ) (userChars : Option Bytes) (pattern : Bytes) :
    compileLoop now rounds userChars pattern =
      compileLoopWith (handleFlag now) .aggregate rounds userChars pattern := by
  induction rounds generalizing userChars pattern with
  | zero => rfl
  | succ rounds ih =>
      cases pattern with
      | nil => rfl
      | cons c rest =>
          rw [compileLoop, compileLoopWith]
          split_ifs
          · rcases handlePadspec rest with ⟨padding, _ | ⟨flag, rest'⟩⟩
            · rfl
            · dsimp only
              rw [ih]
              rfl
          · exact ih _ rest

theorem compilePattern_eq (now : ℤ) (pattern : Bytes) :
    compilePattern now pattern =
      (pieces pattern).flatMap (Piece.compile (handleFlag now) .aggregate) := by
  rw [pieces, ← compileLoopWith_eq, compilePattern, compileLoop_eq]

/-! ## Rounds of the loop -/

section Rounds

theorem length_handleWidth_le (width : ℕ) (pattern : Bytes) :
    (handleWidth width pattern).2.length ≤ pattern.length := by
  induction pattern generalizing width with
  | nil => exact le_rfl
  | cons c rest ih =>
      rw [handleWidth]
      split_ifs
      · exact (ih _).trans (Nat.le_succ _)
      · exact le_rfl

theorem length_handleTruncate_le (side : PadSide) (width : ℕ) (pattern : Bytes) :
    (handleTruncate side width pattern).2.length ≤ pattern.length := by
  cases pattern with
  | nil => exact le_rfl
  | cons c rest =>
      rw [handleTruncate]
      dsimp only
      split_ifs
      · exact Nat.le_succ _
      · exact le_rfl

/-- A pad spec takes nothing but characters of the pattern. -/
theorem length_handlePadspec_le (pattern : Bytes) :
    (handlePadspec pattern).2.length ≤ pattern.length := by
  have hwidth (side : PadSide) (c : UInt8) (rest : Bytes) :
      (handleTruncate side (handleWidth (c.toNat - 48) rest).1
        (handleWidth (c.toNat - 48) rest).2).2.length ≤ (c :: rest).length :=
    (length_handleTruncate_le ..).trans ((length_handleWidth_le ..).trans (Nat.le_succ _))
  cases pattern with
  | nil => exact le_rfl
  | cons c rest =>
      rw [handlePadspec]
      dsimp only
      split_ifs
      case pos | pos =>
        cases rest with
        | nil => exact Nat.zero_le _
        | cons d rest =>
            dsimp only
            split_ifs
            · exact (hwidth _ d rest).trans (Nat.le_succ _)
            · exact Nat.le_succ _
      · exact hwidth .left c rest
      · exact le_rfl

variable {α : Type*} (handleFlag : UInt8 → PaddingInfo → List α) (aggregate : Bytes → α)

/-- As many rounds as characters are enough. -/
theorem compileLoopWith_rounds {rounds rounds' : ℕ} {pattern : Bytes}
    (h : pattern.length ≤ rounds) (h' : pattern.length ≤ rounds') (userChars : Option Bytes) :
    compileLoopWith handleFlag aggregate rounds userChars pattern =
      compileLoopWith handleFlag aggregate rounds' userChars pattern := by
  have hnil (rounds : ℕ) (userChars : Option Bytes) :
      compileLoopWith handleFlag aggregate rounds userChars [] =
        userChars.toList.map aggregate := by
    cases rounds <;> rfl
  induction rounds generalizing rounds' userChars pattern with
  | zero =>
      obtain rfl := List.length_eq_zero_iff.mp (Nat.le_zero.mp h)
      rw [hnil, hnil]
  | succ rounds ih =>
      cases pattern with
      | nil => rw [hnil, hnil]
      | cons c rest =>
          obtain ⟨rounds', rfl⟩ := Nat.exists_eq_succ_of_ne_zero (Nat.ne_zero_of_lt h')
          have hrest := Nat.le_of_succ_le_succ h
          have hrest' := Nat.le_of_succ_le_succ h'
          rw [compileLoopWith, compileLoopWith]
          split_ifs
          · have hspec := length_handlePadspec_le rest
            rcases hparse : handlePadspec rest with ⟨padding, _ | ⟨flag, after⟩⟩
            · rfl
            · rw [hparse, List.length_cons] at hspec
              have hafter := ih (by omega : after.length ≤ rounds)
                (by omega : after.length ≤ rounds') none
              dsimp only
              rw [hafter]
          · exact ih hrest hrest' _

/-- Literal text before a pattern becomes one formatter with the literal text at its start. -/
theorem exists_compileLoopWith_some (rounds : ℕ) (pattern : Bytes) :
    ∃ more others, ∀ text,
      compileLoopWith handleFlag aggregate rounds (some text) pattern =
        aggregate (text ++ more) :: others := by
  induction rounds generalizing pattern with
  | zero => exact ⟨[], [], fun text => by rw [List.append_nil]; rfl⟩
  | succ rounds ih =>
      cases pattern with
      | nil => exact ⟨[], [], fun text => by rw [List.append_nil]; rfl⟩
      | cons c rest =>
          by_cases hpercent : c = charByte '%'
          · rcases hparse : handlePadspec rest with ⟨padding, _ | ⟨flag, after⟩⟩
            · refine ⟨[], [], fun text => ?_⟩
              rw [compileLoopWith, if_pos hpercent, hparse, List.append_nil]
              rfl
            · refine ⟨[], handleFlag flag padding ++
                compileLoopWith handleFlag aggregate rounds none after, fun text => ?_⟩
              rw [compileLoopWith, if_pos hpercent, hparse, List.append_nil]
              rfl
          · obtain ⟨more, others, hmore⟩ := ih rest
            refine ⟨c :: more, others, fun text => ?_⟩
            rw [compileLoopWith, if_neg hpercent, Option.getD_some, hmore, List.append_assoc]
            rfl

end Rounds

/-! ## Flags that depend on the clock -/

/-- The flags of `elapsed_formatter`. -/
def elapsedFlags : List Char := ['u', 'i', 'o', 'O']

/-- The other flags are compiled without looking at the clock. -/
theorem handleFlag_now {flag : UInt8} (h : Char.ofNat flag.toNat ∉ elapsedFlags) (now now' : ℤ)
    (padding : PaddingInfo) : handleFlag now flag padding = handleFlag now' flag padding := by
  unfold handleFlag
  split
  all_goals try rfl
  all_goals
    next hflag =>
      rw [hflag] at h
      exact absurd (by decide) h

/-- The pattern has no flag for elapsed time. -/
def NoElapsed (pattern : Bytes) : Prop :=
  ∀ flag ∈ usedFlags pattern, Char.ofNat flag.toNat ∉ elapsedFlags

instance (pattern : Bytes) : Decidable (NoElapsed pattern) :=
  inferInstanceAs (Decidable (∀ flag ∈ usedFlags pattern, Char.ofNat flag.toNat ∉ elapsedFlags))

theorem compilePattern_now {pattern : Bytes} (h : NoElapsed pattern) (now now' : ℤ) :
    compilePattern now pattern = compilePattern now' pattern := by
  rw [compilePattern_eq, compilePattern_eq]
  apply List.flatMap_congr
  intro piece hpiece
  cases piece with
  | literal text => rfl
  | spec flag padding =>
      have hused := mem_usedFlags.mpr ⟨padding, hpiece⟩
      exact handleFlag_now (h flag hused) now now' padding

end Structlog
