import Structlog.JsonTokens

/-!
# The loops of the lexer end

Each loop of the lexer is given as many turns as bytes are left to read, and one more
(`Lexer.turns`), and answers something when they are used up.  That this never happens is
what is shown here: with any more turns the loop does the same (`Settles`), whatever the
input and the state of the lexer.

`settles_of_turn` is the rule.  A turn may only go on with less to read than it has found,
so that the induction hypothesis, about such lexers, is enough for it.  What a turn reads is
counted by `pending`: `get` takes a byte from it unless the input has ended
(`length_pending_get_lt`), `unget` gives back what `get` has taken (`pending_get_unget`), and
nothing else makes it longer.  The functions without a loop that a turn calls, for an escape
or a character of several bytes, are gone through for that.

`LoopsEnd` lists the loops.  Only `scanComment` needs to take a byte for a loop other than
its own: that over comments would run on if a comment were empty.
-/

namespace Structlog.Json.Lexer

open Lib

/-- With as many turns as there are bytes and one more, further turns change nothing. -/
def Settles {ρ : Type*} (loop : ℕ → Lexer → ρ) : Prop :=
  ∀ (l : Lexer) (n : ℕ), l.turns ≤ n → loop n l = loop l.turns l

/-- A turn that goes on only with less to read makes a loop that ends. -/
theorem settles_of_turn {ρ : Type*} {loop : ℕ → Lexer → ρ}
    (hturn : ∀ (l : Lexer) (n m : ℕ),
      (∀ l' : Lexer, l'.pending.length < l.pending.length → loop n l' = loop m l') →
        loop (n + 1) l = loop (m + 1) l) : Settles loop := by
  have hsame : ∀ (n m : ℕ) (l : Lexer), l.pending.length < n → l.pending.length < m →
      loop n l = loop m l := by
    intro n
    induction n with
    | zero =>
        intro m l hn
        exact absurd hn (Nat.not_lt_zero _)
    | succ n ih =>
        intro m l hn hm
        obtain ⟨m, rfl⟩ := Nat.exists_eq_succ_of_ne_zero (Nat.ne_zero_of_lt hm)
        exact hturn l n m fun l' hshorter => ih m l' (by omega) (by omega)
  intro l n hn
  exact hsame n l.turns l hn (Nat.lt_succ_self _)

/-! ## What is left to read -/

theorem length_pending_get_lt {l : Lexer} (h : l.get.current ≠ none) :
    l.get.pending.length < l.pending.length := by
  unfold get pending at *
  cases hunget : l.nextUnget with
  | true =>
      cases hc : l.current with
      | none => simp [hunget, hc] at h
      | some c => simp
  | false =>
      cases hia : l.ia with
      | nil => simp [hunget, hia] at h
      | cons c rest => simp

theorem length_pending_get_le (l : Lexer) : l.get.pending.length ≤ l.pending.length := by
  by_cases h : l.get.current = none
  · unfold get pending at *
    cases hunget : l.nextUnget <;> simp
  · exact (length_pending_get_lt h).le

/-- What was taken is given back. -/
theorem pending_get_unget (l : Lexer) : l.get.unget.pending = l.pending := by
  unfold get unget pending
  cases hunget : l.nextUnget with
  | true => rfl
  | false => cases hia : l.ia <;> simp

/-! ## Pieces of a string -/

theorem length_pending_getCodepointFrom (factors : List ℕ) (codepoint : ℕ) (l : Lexer) :
    (getCodepointFrom factors codepoint l).2.pending.length ≤ l.pending.length := by
  induction factors generalizing codepoint l with
  | nil => exact le_rfl
  | cons factor rest ih =>
      have hget := l.length_pending_get_le
      rw [getCodepointFrom]
      split
      · exact hget
      · split_ifs
        · exact (ih _ _).trans hget
        · exact (ih _ _).trans hget
        · exact (ih _ _).trans hget
        · exact hget

theorem length_pending_scanLowSurrogate (codepoint1 : ℕ) (l : Lexer) :
    (scanLowSurrogate codepoint1 l).2.pending.length ≤ l.pending.length := by
  have hfirst := l.length_pending_get_le
  have hsecond := l.get.length_pending_get_le.trans hfirst
  have hdigits := (length_pending_getCodepointFrom [12, 8, 4, 0] 0 l.get.get).trans hsecond
  rw [scanLowSurrogate]
  dsimp only
  split_ifs
  · rw [← getCodepoint] at hdigits
    cases hcodepoint : getCodepoint l.get.get with
    | mk codepoint2 l' =>
        rw [hcodepoint] at hdigits
        cases codepoint2 with
        | none => exact hdigits
        | some codepoint2 =>
            dsimp only
            split_ifs <;> exact hdigits
  · exact hsecond
  · exact hfirst

theorem length_pending_scanUnicode (l : Lexer) :
    (scanUnicode l).2.pending.length ≤ l.pending.length := by
  have hdigits := length_pending_getCodepointFrom [12, 8, 4, 0] 0 l
  rw [← getCodepoint] at hdigits
  rw [scanUnicode]
  cases hcodepoint : getCodepoint l with
  | mk codepoint1 l' =>
      rw [hcodepoint] at hdigits
      cases codepoint1 with
      | none => exact hdigits
      | some codepoint1 =>
          dsimp only
          split_ifs
          · exact (length_pending_scanLowSurrogate _ _).trans hdigits
          · exact hdigits
          · exact hdigits

theorem length_pending_scanEscape (l : Lexer) :
    (scanEscape l).2.pending.length ≤ l.pending.length := by
  have hget := l.length_pending_get_le
  rw [scanEscape]
  split_ifs
  any_goals exact hget
  exact (length_pending_scanUnicode l.get).trans hget

theorem length_pending_nextBytesInRange (ranges : List (UInt8 × UInt8)) (l : Lexer) :
    (nextBytesInRange ranges l).2.pending.length ≤ l.pending.length := by
  induction ranges generalizing l with
  | nil => exact le_rfl
  | cons range rest ih =>
      obtain ⟨low, high⟩ := range
      have hget := l.length_pending_get_le
      rw [nextBytesInRange]
      split
      · exact hget
      · split_ifs
        · exact (ih _).trans hget
        · exact hget

theorem length_pending_scanPiece (c : UInt8) (l : Lexer) :
    (scanPiece c l).2.pending.length ≤ l.pending.length := by
  have hrange (ranges : List (UInt8 × UInt8)) :
      (nextByteInRange c ranges l).2.pending.length ≤ l.pending.length :=
    length_pending_nextBytesInRange ranges (l.add c)
  rw [scanPiece]
  split_ifs
  · exact length_pending_scanEscape l
  · unfold scanPlain
    split_ifs <;> first | exact le_rfl | exact hrange _

/-! ## Comments -/

theorem length_pending_skipWhitespaceLoop (n : ℕ) (l : Lexer) :
    (skipWhitespaceLoop n l).pending.length ≤ l.pending.length := by
  induction n generalizing l with
  | zero => exact le_rfl
  | succ n ih =>
      rw [skipWhitespaceLoop]
      split_ifs
      · exact (ih _).trans l.length_pending_get_le
      · exact l.length_pending_get_le

theorem length_pending_scanLineComment (n : ℕ) (l : Lexer) :
    (scanLineComment n l).pending.length ≤ l.pending.length := by
  induction n generalizing l with
  | zero => exact le_rfl
  | succ n ih =>
      rw [scanLineComment]
      split_ifs
      · exact l.length_pending_get_le
      · exact (ih _).trans l.length_pending_get_le

theorem length_pending_scanBlockComment (n : ℕ) (l : Lexer) :
    (scanBlockComment n l).2.pending.length ≤ l.pending.length := by
  induction n generalizing l with
  | zero => exact le_rfl
  | succ n ih =>
      have hget := l.length_pending_get_le
      rw [scanBlockComment]
      dsimp only
      split_ifs
      · exact hget
      · exact l.get.length_pending_get_le.trans hget
      · refine (ih _).trans ?_
        rw [pending_get_unget]
        exact hget
      · exact (ih _).trans hget

/-- A comment takes at least the byte behind its slash. -/
theorem length_pending_scanComment {l : Lexer} (h : (scanComment l).1 = true) :
    (scanComment l).2.pending.length < l.pending.length := by
  rw [scanComment] at h ⊢
  split_ifs at h ⊢ with hline hblock
  · exact (length_pending_scanLineComment _ _).trans_lt
      (length_pending_get_lt (by simp [hline]))
  · exact (length_pending_scanBlockComment _ _).trans_lt
      (length_pending_get_lt (by simp [hblock]))

/-! ## The loops -/

theorem settles_scanStringLoop : Settles scanStringLoop := by
  apply settles_of_turn
  intro l n m ih
  cases hc : l.get.current with
  | none => simp only [scanStringLoop, hc]
  | some c =>
      rw [scanStringLoop_cons hc, scanStringLoop_cons hc]
      have hshorter : (scanPiece c l.get).2.pending.length < l.pending.length :=
        (length_pending_scanPiece c l.get).trans_lt (length_pending_get_lt (by simp [hc]))
      rw [ih _ hshorter]

theorem settles_scanNumberAt (config : LexerConfig) :
    Settles fun n l => fun label numberType => scanNumberAt config n label numberType l := by
  apply settles_of_turn
  intro l n m ih
  funext label numberType
  cases hc : l.get.current with
  | none => simp only [scanNumberAt, hc]
  | some c =>
      -- wherever a label goes, it goes with the byte that was read
      have hgoto (b : UInt8) (label : NumberLabel) (numberType : TokenType) :
          scanNumberAt config n label numberType (l.get.add b) =
            scanNumberAt config m label numberType (l.get.add b) :=
        congrFun (congrFun (ih (l.get.add b) (length_pending_get_lt (by simp [hc]))) label)
          numberType
      cases label <;> simp only [scanNumberAt, hc, hgoto]

theorem settles_scanLineComment : Settles scanLineComment := by
  apply settles_of_turn
  intro l n m ih
  rw [scanLineComment, scanLineComment]
  split_ifs with hend
  · rfl
  · exact ih l.get (length_pending_get_lt fun hnone => hend (.inl hnone))

theorem settles_scanBlockComment : Settles scanBlockComment := by
  apply settles_of_turn
  intro l n m ih
  rw [scanBlockComment, scanBlockComment]
  dsimp only
  split_ifs with hend
  · rfl
  · rfl
  · -- the byte behind the star is given back
    apply ih
    rw [pending_get_unget]
    exact length_pending_get_lt fun hnone => hend (.inl hnone)
  · exact ih l.get (length_pending_get_lt fun hnone => hend (.inl hnone))

theorem settles_skipWhitespaceLoop : Settles skipWhitespaceLoop := by
  apply settles_of_turn
  intro l n m ih
  rw [skipWhitespaceLoop, skipWhitespaceLoop]
  split_ifs with hspace
  · refine ih l.get (length_pending_get_lt fun hnone => ?_)
    simp [hnone] at hspace
  · rfl

theorem settles_skipComments (config : LexerConfig) : Settles (skipComments config) := by
  apply settles_of_turn
  intro l n m ih
  rw [skipComments, skipComments]
  dsimp only
  by_cases hscanned : (scanComment l).1 = true
  · have hshorter : (scanComment l).2.skipWhitespace.pending.length < l.pending.length :=
      (length_pending_skipWhitespaceLoop _ _).trans_lt (length_pending_scanComment hscanned)
    rw [ih _ hshorter]
  · simp only [hscanned, if_false, Bool.false_eq_true]

/-- Every loop of the lexer ends within the turns that it is given. -/
structure LoopsEnd (config : LexerConfig) : Prop where
  string : Settles scanStringLoop
  number : Settles fun n l => fun label numberType => scanNumberAt config n label numberType l
  lineComment : Settles scanLineComment
  blockComment : Settles scanBlockComment
  whitespace : Settles skipWhitespaceLoop
  comments : Settles (skipComments config)

theorem loopsEnd (config : LexerConfig) : LoopsEnd config where
  string := settles_scanStringLoop
  number := settles_scanNumberAt config
  lineComment := settles_scanLineComment
  blockComment := settles_scanBlockComment
  whitespace := settles_skipWhitespaceLoop
  comments := settles_skipComments config

end Structlog.Json.Lexer
