import Structlog.PatternCaches
import Structlog.PatternScan

/-!
# Literal text in a pattern

Text is put in front of a pattern with every `%` doubled.  It is compiled into formatters of
its own, but for its end, which goes into one formatter with the literal text that the
pattern begins with (`Before`).

What a formatter writes depends on the buffer only where it cuts something off, and that
takes a `!` in the pattern (`noCut_of_mem_compilePattern`).  Without one, the text and the
pattern write what each of them writes into an empty buffer (`escaped_text_composes`).
-/

namespace Structlog

open Lib

/-- The text with every `%` doubled. -/
def escape (text : Bytes) : Bytes :=
  text.flatMap fun c => if c = charByte '%' then [c, c] else [c]

/-! ## Formatters of text -/

/-- The first formatters write the text and are then like the second. -/
inductive Before : Bytes → List FlagFormatter → List FlagFormatter → Prop
  | same (fs : List FlagFormatter) : Before [] fs fs
  | merged (text more : Bytes) (fs : List FlagFormatter) :
      Before text (.aggregate (text ++ more) :: fs) (.aggregate more :: fs)
  | aggregate (first : Bytes) {text : Bytes} {fs gs : List FlagFormatter} :
      Before text fs gs → Before (first ++ text) (.aggregate first :: fs) gs
  | ch (c : UInt8) {text : Bytes} {fs gs : List FlagFormatter} :
      Before text fs gs → Before (c :: text) (.ch c :: fs) gs

theorem Target.append_append (first second : Bytes) (t : Target) :
    (t.append first).append second = t.append (first ++ second) := by
  rw [append, append, append, List.append_assoc]

theorem Before.formatAll {text : Bytes} {fs gs : List FlagFormatter} (h : Before text fs gs)
    (pid : ℤ) (msg : Record) (tm : Tm) (t : Target) :
    Runs.Alike (Before text) (PatternFormatter.formatAll pid msg tm fs t)
      (PatternFormatter.formatAll pid msg tm gs (t.append text)) := by
  induction h generalizing t with
  | same fs =>
      have hnothing : t.append [] = t := by rw [Target.append, List.append_nil]
      rw [hnothing]
      cases PatternFormatter.formatAll pid msg tm fs t with
      | error failure => exact .failed failure
      | ok result => exact .answered _ (.same _)
  | merged text more fs =>
      rw [PatternFormatter.formatAll_cons, PatternFormatter.formatAll_cons]
      simp only [FlagFormatter.write, Except.bind, Target.append_append]
      cases PatternFormatter.formatAll pid msg tm fs (t.append (text ++ more)) with
      | error failure => exact .failed failure
      | ok result => exact .answered _ (.merged _ _ _)
  | @aggregate first text fs gs hrest ih =>
      have halike := ih (t.append first)
      rw [Target.append_append] at halike
      rw [PatternFormatter.formatAll_cons]
      simp only [FlagFormatter.write, Except.bind]
      generalize PatternFormatter.formatAll pid msg tm fs (t.append first) = left at halike
      generalize PatternFormatter.formatAll pid msg tm gs (t.append (first ++ text)) = right
        at halike
      cases halike with
      | failed failure => exact .failed failure
      | answered b hnext => exact .answered b (.aggregate _ hnext)
  | @ch c text fs gs hrest ih =>
      have halike := ih (t.append [c])
      rw [Target.append_append, List.singleton_append] at halike
      rw [PatternFormatter.formatAll_cons]
      simp only [FlagFormatter.write, Except.bind]
      generalize PatternFormatter.formatAll pid msg tm fs (t.append [c]) = left at halike
      generalize PatternFormatter.formatAll pid msg tm gs (t.append (c :: text)) = right
        at halike
      cases halike with
      | failed failure => exact .failed failure
      | answered b hnext => exact .answered b (.ch _ hnext)

/-! ## Compiling the text -/

/-- Text that is not yet in a formatter when the pattern begins. -/
theorem before_compileLoopWith (now : ℤ) (rounds : ℕ) (text pattern : Bytes) :
    Before text (compileLoopWith (handleFlag now) .aggregate rounds (some text) pattern)
      (compileLoopWith (handleFlag now) .aggregate rounds none pattern) := by
  have hown (fs : List FlagFormatter) : Before text (.aggregate text :: fs) fs := by
    have hbefore := Before.aggregate text (.same fs)
    rwa [List.append_nil] at hbefore
  cases rounds with
  | zero => exact hown []
  | succ rounds =>
      cases pattern with
      | nil => exact hown []
      | cons c rest =>
          rw [compileLoopWith, compileLoopWith]
          split_ifs
          · rcases handlePadspec rest with ⟨padding, _ | ⟨flag, after⟩⟩ <;> exact hown _
          · obtain ⟨more, others, hmore⟩ :=
              exists_compileLoopWith_some (handleFlag now) .aggregate rounds rest
            rw [hmore, hmore, Option.getD_none, Option.getD_some, List.append_assoc text]
            exact .merged _ _ _

/-- The doubled `%` is a flag. -/
theorem handlePadspec_percent (rest : Bytes) :
    handlePadspec (charByte '%' :: rest) = ({}, charByte '%' :: rest) := rfl

/-- The induction: the text that has been collected, and the text to come. -/
theorem before_escape (now : ℤ) (text pattern : Bytes) (userChars : Option Bytes) {rounds : ℕ}
    (hrounds : (escape text ++ pattern).length ≤ rounds) :
    Before (userChars.getD [] ++ text)
      (compileLoopWith (handleFlag now) .aggregate rounds userChars (escape text ++ pattern))
      (compileLoopWith (handleFlag now) .aggregate pattern.length none pattern) := by
  induction text generalizing userChars rounds with
  | nil =>
      have hpattern : pattern.length ≤ rounds := hrounds
      -- There may be more rounds than characters left, which makes no difference.
      have henough := compileLoopWith_rounds (handleFlag now) FlagFormatter.aggregate hpattern
        le_rfl userChars
      have hnothing : escape [] ++ pattern = pattern := rfl
      rw [List.append_nil, hnothing, henough]
      cases userChars with
      | none => exact .same _
      | some collected => exact before_compileLoopWith now _ collected pattern
  | cons c text ih =>
      have hcons : escape (c :: text) ++ pattern =
          (if c = charByte '%' then [c, c] else [c]) ++ (escape text ++ pattern) :=
        List.append_assoc ..
      rw [hcons] at hrounds ⊢
      obtain ⟨rounds, rfl⟩ : ∃ n, rounds = n + 1 := by
        apply Nat.exists_eq_succ_of_ne_zero
        split_ifs at hrounds <;> simp only [List.length_append, List.length_cons] at hrounds <;>
          omega
      by_cases hpercent : c = charByte '%'
      · rw [if_pos hpercent, hpercent] at hrounds ⊢
        have hlength : (escape text ++ pattern).length ≤ rounds := by
          simp only [List.length_append, List.length_cons] at hrounds ⊢
          omega
        -- The collected text ends here, and a formatter for the `%` alone follows.
        have hflag : handleFlag now (charByte '%') {} = [.ch (charByte '%')] := rfl
        have hrest := Before.ch (charByte '%') (ih none hlength)
        rw [List.cons_append, List.singleton_append, compileLoopWith, if_pos rfl,
          handlePadspec_percent]
        dsimp only
        rw [hflag]
        cases userChars with
        | none => exact hrest
        | some collected => exact .aggregate collected hrest
      · rw [if_neg hpercent] at hrounds ⊢
        have hlength : (escape text ++ pattern).length ≤ rounds := by
          simp only [List.length_append, List.length_cons] at hrounds ⊢
          omega
        have hrest := ih (some (userChars.getD [] ++ [c])) hlength
        rw [Option.getD_some, List.append_assoc, List.singleton_append] at hrest
        rw [List.singleton_append, compileLoopWith, if_neg hpercent]
        exact hrest

theorem before_compilePattern (now : ℤ) (text pattern : Bytes) :
    Before text (compilePattern now (escape text ++ pattern)) (compilePattern now pattern) := by
  rw [compilePattern, compilePattern, compileLoop_eq, compileLoop_eq]
  exact before_escape now text pattern none le_rfl

/-! ## Writing into any buffer -/

/-- The formatter cuts nothing off. -/
def FlagFormatter.NoCut : FlagFormatter → Prop
  | field _ padinfo | z padinfo _ _ | elapsed _ padinfo _ => padinfo.truncate = false
  | _ => True

theorem FlagFormatter.NoCut.next {f : FlagFormatter} (h : f.NoCut) (msg : Record) (tm : Tm) :
    (f.next msg tm).NoCut := by
  cases f <;> exact h

/-- A field that is not cut is written behind what is there. -/
theorem Field.write_behind {padinfo : PaddingInfo} (h : padinfo.truncate = false) (field : Field)
    (dest : Bytes) :
    field.write padinfo dest = (field.write padinfo []).map fun text => dest ++ text := by
  cases henabled : padinfo.enabled with
  | false => simp [Field.write, henabled, Except.map]
  | true =>
      by_cases hnarrow : field.fieldSize < padinfo.width
      · rw [Field.write_of_lt henabled hnarrow, Field.write_of_lt henabled hnarrow]
        simp only [Except.map, List.nil_append, List.append_assoc]
      · have hwide := Nat.le_of_not_lt hnarrow
        rw [Field.write_of_le henabled hwide, Field.write_of_le henabled hwide]
        simp [h, Except.map]

/-- An empty buffer. -/
def Target.empty : Target := ⟨[], 0, 0⟩

theorem FlagFormatter.writeField_behind {padinfo : PaddingInfo} (h : padinfo.truncate = false)
    (field : Option Field) (t : Target) :
    (writeField padinfo field t).map Target.dest =
      (writeField padinfo field .empty).map fun made => t.dest ++ made.dest := by
  cases field with
  | none => simp [writeField, Except.map, Target.empty]
  | some field =>
      rw [writeField, writeField, Field.write_behind h field t.dest]
      simp only [Target.empty]
      cases field.write padinfo [] <;> rfl

theorem FlagFormatter.write_behind (pid : ℤ) (msg : Record) (tm : Tm) {f : FlagFormatter}
    (h : f.NoCut) (t : Target) :
    (f.write pid msg tm t).map Target.dest =
      (f.write pid msg tm .empty).map fun made => t.dest ++ made.dest := by
  cases f with
  | field flag padinfo =>
      rw [write, write]
      cases flag.field pid msg tm with
      | error failure => rfl
      | ok made => exact writeField_behind h made t
  | z padinfo lastUpdate offsetMinutes =>
      rw [write, write]
      exact writeField_behind h _ t
  | elapsed units padinfo lastMessageTime =>
      rw [write, write]
      exact writeField_behind h _ t
  | ch c => rfl
  | aggregate str => rfl
  | colorStart => simp [write, Except.map, Target.empty]
  | colorStop => simp [write, Except.map, Target.empty]
  | full cacheTimestamp cachedDatetime =>
      rw [write, write, fullFormat_eq, fullFormat_eq]
      cases fullSource msg with
      | error failure => rfl
      | ok source => simp [Except.map, Target.empty]

namespace PatternFormatter

theorem map_map {ε α β γ : Type*} (x : Except ε α) (f : α → β) (g : β → γ) :
    (x.map f).map g = x.map fun a => g (f a) := by
  cases x <;> rfl

/-- The state of the formatters and what they append. -/
theorem formatAll_behind (pid : ℤ) (msg : Record) (tm : Tm) {fs : List FlagFormatter}
    (h : ∀ f ∈ fs, f.NoCut) (t : Target) :
    (formatAll pid msg tm fs t).map (fun result => (result.1, result.2.dest)) =
      (formatAll pid msg tm fs .empty).map fun result =>
        (result.1, t.dest ++ result.2.dest) := by
  induction fs generalizing t with
  | nil => simp [formatAll, formatAllBy, Except.map, Target.empty]
  | cons f rest ih =>
      obtain ⟨hfirst, hrest⟩ := List.forall_mem_cons.mp h
      have hwrite := f.write_behind pid msg tm hfirst t
      rw [formatAll_cons, formatAll_cons]
      cases hmade : f.write pid msg tm .empty with
      | error failure =>
          cases hthere : f.write pid msg tm t with
          | error failure' =>
              rw [hmade, hthere] at hwrite
              obtain rfl := Except.error.inj hwrite
              rfl
          | ok there =>
              rw [hmade, hthere] at hwrite
              cases hwrite
      | ok made =>
          cases hthere : f.write pid msg tm t with
          | error failure =>
              rw [hmade, hthere] at hwrite
              cases hwrite
          | ok there =>
              rw [hmade, hthere] at hwrite
              have hdest : there.dest = t.dest ++ made.dest := Except.ok.inj hwrite
              -- Both are compared with what the rest appends to nothing.
              have hother := ih hrest there
              have hown := ih hrest made
              simp only [Except.bind, map_map, hdest] at hother hown ⊢
              generalize formatAll pid msg tm rest .empty = empty at hother hown
              generalize formatAll pid msg tm rest there = left at hother ⊢
              generalize formatAll pid msg tm rest made = right at hown ⊢
              calc left.map (fun result => (f.next msg tm :: result.1, result.2.dest))
                  = (left.map fun result => (result.1, result.2.dest)).map
                      fun p => (f.next msg tm :: p.1, p.2) := by rw [map_map]
                _ = empty.map fun result => (f.next msg tm :: result.1,
                      t.dest ++ made.dest ++ result.2.dest) := by rw [hother, map_map]
                _ = (right.map fun result => (result.1, result.2.dest)).map
                      fun p => (f.next msg tm :: p.1, t.dest ++ p.2) := by
                    rw [hown, map_map]
                    simp only [List.append_assoc]
                _ = right.map fun result =>
                      (f.next msg tm :: result.1, t.dest ++ result.2.dest) := by rw [map_map]

/-- What is formatted goes on from the state that follows each flag's own. -/
theorem formatters_of_formatAll {pid : ℤ} {msg : Record} {tm : Tm} {fs : List FlagFormatter}
    {t : Target} {result : List FlagFormatter × Target}
    (h : formatAll pid msg tm fs t = .ok result) : result.1 = fs.map (·.next msg tm) := by
  induction fs generalizing t result with
  | nil =>
      obtain rfl := Except.ok.inj h
      rfl
  | cons f rest ih =>
      rw [formatAll_cons] at h
      cases hfirst : f.write pid msg tm t with
      | error failure =>
          rw [hfirst] at h
          cases h
      | ok made =>
          rw [hfirst, Except.bind] at h
          cases hrest : formatAll pid msg tm rest made with
          | error failure =>
              rw [hrest] at h
              cases h
          | ok others =>
              rw [hrest] at h
              obtain rfl := Except.ok.inj h
              exact congrArg (f.next msg tm :: ·) (ih hrest)

end PatternFormatter

/-! ## Patterns that cut nothing off -/

theorem suffix_handleWidth (width : ℕ) (pattern : Bytes) :
    (handleWidth width pattern).2 <:+ pattern := by
  induction pattern generalizing width with
  | nil => exact List.suffix_rfl
  | cons c rest ih =>
      rw [handleWidth]
      split_ifs
      · exact (ih _).trans (List.suffix_cons c rest)
      · exact List.suffix_rfl

/-- What is left comes from the pattern, and so does the mark of a truncation. -/
theorem handleTruncate_mark (side : PadSide) (width : ℕ) (rest : Bytes) :
    (handleTruncate side width rest).2 <:+ rest ∧
      ((handleTruncate side width rest).1.truncate = true → charByte '!' ∈ rest) := by
  cases rest with
  | nil => exact ⟨List.suffix_rfl, fun h => absurd h Bool.false_ne_true⟩
  | cons c rest =>
      rw [handleTruncate]
      dsimp only
      split_ifs with hmark
      · exact ⟨List.suffix_cons c rest, fun _ => hmark ▸ List.mem_cons_self⟩
      · exact ⟨List.suffix_rfl, False.elim⟩

theorem handleAfterSide_mark (side : PadSide) (rest : Bytes) :
    (handleAfterSide side rest).2 <:+ rest ∧
      ((handleAfterSide side rest).1.truncate = true → charByte '!' ∈ rest) := by
  cases rest with
  | nil => exact ⟨List.suffix_rfl, fun h => absurd h Bool.false_ne_true⟩
  | cons c rest =>
      rw [handleAfterSide]
      split_ifs
      · have hwidth : (handleWidth (c.toNat - 48) rest).2 <:+ c :: rest :=
          (suffix_handleWidth _ _).trans (List.suffix_cons c rest)
        obtain ⟨hsuffix, hmark⟩ := handleTruncate_mark side (handleWidth (c.toNat - 48) rest).1
          (handleWidth (c.toNat - 48) rest).2
        exact ⟨hsuffix.trans hwidth, fun htruncate => hwidth.subset (hmark htruncate)⟩
      · exact ⟨List.suffix_rfl, fun h => absurd h Bool.false_ne_true⟩

theorem handlePadspec_mark (pattern : Bytes) :
    (handlePadspec pattern).2 <:+ pattern ∧
      ((handlePadspec pattern).1.truncate = true → charByte '!' ∈ pattern) := by
  cases pattern with
  | nil => exact ⟨List.suffix_rfl, fun h => absurd h Bool.false_ne_true⟩
  | cons c rest =>
      have hrest := List.suffix_cons c rest
      rw [handlePadspec_cons]
      split_ifs
      · obtain ⟨hsuffix, hmark⟩ := handleAfterSide_mark .right rest
        exact ⟨hsuffix.trans hrest, fun htruncate => hrest.subset (hmark htruncate)⟩
      · obtain ⟨hsuffix, hmark⟩ := handleAfterSide_mark .center rest
        exact ⟨hsuffix.trans hrest, fun htruncate => hrest.subset (hmark htruncate)⟩
      · exact handleAfterSide_mark .left (c :: rest)

theorem noCut_of_mem_handleFlag (now : ℤ) (flag : UInt8) {padding : PaddingInfo}
    (h : padding.truncate = false) : ∀ f ∈ handleFlag now flag padding, f.NoCut := by
  unfold handleFlag
  split
  all_goals simp [FlagFormatter.NoCut, h]

/-- A pattern without `!` cuts nothing off. -/
theorem noCut_of_mem_compilePattern (now : ℤ) {pattern : Bytes} (h : charByte '!' ∉ pattern) :
    ∀ f ∈ compilePattern now pattern, f.NoCut := by
  have huser (userChars : Option Bytes) : ∀ f ∈ userFormatter userChars, f.NoCut := by
    intro f hf
    obtain ⟨text, -, rfl⟩ := List.mem_map.mp hf
    trivial
  have hloop (rounds : ℕ) (userChars : Option Bytes) (pattern : Bytes)
      (h : charByte '!' ∉ pattern) : ∀ f ∈ compileLoop now rounds userChars pattern, f.NoCut := by
    induction rounds generalizing userChars pattern with
    | zero => exact huser userChars
    | succ rounds ih =>
        cases pattern with
        | nil => exact huser userChars
        | cons c rest =>
            have hrest : charByte '!' ∉ rest := mt (List.mem_cons_of_mem c) h
            rw [compileLoop]
            split_ifs
            · obtain ⟨hsuffix, hmark⟩ := handlePadspec_mark rest
              generalize handlePadspec rest = parsed at hsuffix hmark ⊢
              obtain ⟨padding, _ | ⟨flag, after⟩⟩ := parsed
              · exact huser userChars
              · have htruncate : padding.truncate = false :=
                  Bool.eq_false_iff.mpr fun htruncate => hrest (hmark htruncate)
                have hafter : charByte '!' ∉ after := fun hmem =>
                  hrest (hsuffix.subset (List.mem_cons_of_mem flag hmem))
                intro f hf
                rcases List.mem_append.mp hf with hf | hf
                · rcases List.mem_append.mp hf with hf | hf
                  · exact huser userChars f hf
                  · exact noCut_of_mem_handleFlag now flag htruncate f hf
                · exact ih none after hafter f hf
            · exact ih _ rest hrest
  exact hloop pattern.length none pattern h

/-! ## Rendering -/

namespace PatternFormatter

/-- What is written into the buffer. -/
def written (env : Environment) (pf : PatternFormatter) (call : Record × Target) :
    Except Failure (PatternFormatter × Bytes) :=
  (pf.format env call.1 call.2).map fun made => (made.1, made.2.dest)

/-- What is written into an empty buffer: the rendering of a message. -/
def render (env : Environment) (pf : PatternFormatter) (msg : Record) :
    Except Failure (PatternFormatter × Bytes) :=
  pf.written env (msg, .empty)

/-- The rendering, behind what is in the buffer and the text. -/
def writtenBehind (env : Environment) (text : Bytes) (pf : PatternFormatter)
    (call : Record × Target) : Except Failure (PatternFormatter × Bytes) :=
  (pf.render env call.1).map fun made => (made.1, call.2.dest ++ (text ++ made.2))

/-- The first formatter has text in front of the pattern of the second, which cuts nothing
off. -/
structure Preceded (text : Bytes) (pf qf : PatternFormatter) : Prop where
  formatters : Before text pf.formatters qf.formatters
  noCut : ∀ f ∈ qf.formatters, f.NoCut
  eol : pf.eol = qf.eol
  patternTimeType : pf.patternTimeType = qf.patternTimeType
  cachedTm : pf.cachedTm = qf.cachedTm
  lastLogSecs : pf.lastLogSecs = qf.lastLogSecs

theorem preceded_new (now now' : ℤ) {pattern : Bytes} (hmark : charByte '!' ∉ pattern)
    (helapsed : NoElapsed pattern) (timeType : PatternTimeType) (eol text : Bytes) :
    Preceded text (new now (escape text ++ pattern) timeType eol)
      (new now' pattern timeType eol) where
  formatters := by
    have hsame : (new now' pattern timeType eol).formatters = compilePattern now pattern :=
      compilePattern_now helapsed now' now
    rw [hsame]
    exact before_compilePattern now text pattern
  noCut := noCut_of_mem_compilePattern now' hmark
  eol := rfl
  patternTimeType := rfl
  cachedTm := rfl
  lastLogSecs := rfl

/-- The step: both write the same, and the text stays in front. -/
theorem Preceded.step {text : Bytes} {pf qf : PatternFormatter} (h : Preceded text pf qf)
    (env : Environment) (call : Record × Target) :
    Runs.Alike (Preceded text) (pf.written env call) (qf.writtenBehind env text call) := by
  have htm := cachedTm_refresh_congr h.patternTimeType h.cachedTm h.lastLogSecs env call.1
  have halike := h.formatters.formatAll env.pid call.1 (qf.refresh env call.1).cachedTm call.2
  have hbehind := formatAll_behind env.pid call.1 (qf.refresh env call.1).cachedTm h.noCut
    (call.2.append text)
  have hnext {t : Target} {result : List FlagFormatter × Target} (hresult : formatAll env.pid
      call.1 (qf.refresh env call.1).cachedTm qf.formatters t = .ok result) :
      ∀ f ∈ result.1, f.NoCut := by
    intro f hf
    rw [formatters_of_formatAll hresult] at hf
    obtain ⟨before, hbefore, rfl⟩ := List.mem_map.mp hf
    exact (h.noCut before hbefore).next call.1 _
  rw [written, writtenBehind, render, written, format_eq, format_eq, map_map, map_map, map_map,
    htm, h.eol]
  -- Three ways to the same bytes: with the text in the pattern, with the text in the buffer,
  -- and into an empty buffer.
  generalize hleft : formatAll env.pid call.1 (qf.refresh env call.1).cachedTm pf.formatters
    call.2 = left at halike
  generalize formatAll env.pid call.1 (qf.refresh env call.1).cachedTm qf.formatters
    (call.2.append text) = right at halike hbehind
  generalize hempty : formatAll env.pid call.1 (qf.refresh env call.1).cachedTm qf.formatters
    .empty = empty at hbehind
  obtain ⟨htype, heol⟩ := refresh_same env call.1 pf
  obtain ⟨htype', heol'⟩ := refresh_same env call.1 qf
  cases halike with
  | failed failure =>
      cases empty with
      | error failure' =>
          obtain rfl := Except.error.inj hbehind
          exact .failed failure
      | ok made => cases hbehind
  | @answered fs gs t hfs =>
      cases empty with
      | error failure => cases hbehind
      | ok made =>
          obtain ⟨hgs, hdest⟩ := Prod.mk.inj (Except.ok.inj hbehind)
          have hwritten : (t.append qf.eol).dest =
              call.2.dest ++ (text ++ (made.2.append qf.eol).dest) := by
            simp only [Target.append] at hdest ⊢
            rw [hdest, List.append_assoc, List.append_assoc]
          simp only [Except.map]
          rw [hwritten]
          refine .answered _ ⟨?_, hnext hempty, ?_, ?_, htm, ?_⟩
          · obtain rfl : gs = made.1 := hgs
            exact hfs
          · exact heol.trans (h.eol.trans heol'.symm)
          · exact htype.trans (h.patternTimeType.trans htype'.symm)
          · exact (lastLogSecs_refresh env call.1 pf).trans (lastLogSecs_refresh env call.1 qf).symm

/-- A pattern without formatters writes the end of the line. -/
theorem answers_writtenBehind_nothing (env : Environment) (text : Bytes) {pf : PatternFormatter}
    (h : pf.formatters = []) (calls : List (Record × Target)) :
    Runs.answers (writtenBehind env text) pf calls =
      calls.map fun call => .ok (call.2.dest ++ (text ++ pf.eol)) := by
  induction calls generalizing pf with
  | nil => rfl
  | cons call rest ih =>
      have hstep : pf.writtenBehind env text call =
          .ok ({ pf.refresh env call.1 with formatters := [] },
            call.2.dest ++ (text ++ pf.eol)) := by
        rw [writtenBehind, render, written, format_eq, h]
        rfl
      have heol := (refresh_same env call.1 pf).2
      rw [Runs.answers, hstep, List.map_cons]
      dsimp only
      rw [ih rfl, heol]

/-- A pattern is compiled without reading past its end.  With escaped text in front, any
sequence of messages is rendered as by the pattern, with the text in front; and the text
alone is rendered as itself. -/
theorem escaped_text_composes (env : Environment) (now now' : ℤ) (timeType : PatternTimeType)
    (eol text pattern : Bytes) (hmark : charByte '!' ∉ pattern)
    (helapsed : NoElapsed pattern) :
    (∀ rounds > (escape text ++ pattern).length,
      scanPattern now (escape text ++ pattern) rounds none 0 =
        some (compilePattern now (escape text ++ pattern))) ∧
      (∀ calls : List (Record × Target),
        Runs.answers (written env) (new now (escape text ++ pattern) timeType eol) calls =
          Runs.answers (writtenBehind env text) (new now' pattern timeType eol) calls) ∧
      ∀ calls : List (Record × Target),
        Runs.answers (written env) (new now (escape text) timeType eol) calls =
          calls.map fun call => .ok (call.2.dest ++ (text ++ eol)) := by
  have hcompose {pattern : Bytes} (hmark : charByte '!' ∉ pattern) (helapsed : NoElapsed pattern)
      (calls : List (Record × Target)) :
      Runs.answers (written env) (new now (escape text ++ pattern) timeType eol) calls =
        Runs.answers (writtenBehind env text) (new now' pattern timeType eol) calls := by
    have hstep (call : Record × Target) (_ : call ∈ calls) (pf qf : PatternFormatter)
        (h : Preceded text pf qf) :
        Runs.Alike (Preceded text) (pf.written env call) (qf.writtenBehind env text (id call)) :=
      h.step env call
    have hrun := Runs.answers_eq_of_related hstep
      (preceded_new now now' hmark helapsed timeType eol text)
    rwa [List.map_id] at hrun
  refine ⟨fun rounds hrounds => scanPattern_eq now hrounds, hcompose hmark helapsed,
    fun calls => ?_⟩
  have halone := hcompose (List.not_mem_nil (a := charByte '!'))
    (forall_mem_of_all (s := usedFlags []) (by decide)) calls
  rw [List.append_nil] at halone
  exact halone.trans (answers_writtenBehind_nothing env text rfl calls)

/-- Text with a `%`, in front of a flag, an unknown one and one that is not complete. -/
theorem escaped_text_composes_unfinished :
    Runs.answers (written ⟨4242, Zone.constant 0⟩)
        (new 0 (ascii "100%%%v %q%-8") .utc (ascii "\n"))
        [(LogMsg.new 0 7 {} (ascii "a") .info (ascii "x"), .empty)] =
      [.ok (ascii "100%x %q\n")] :=
  ((escaped_text_composes ⟨4242, Zone.constant 0⟩ 0 0 .utc (ascii "\n") (ascii "100%")
    (ascii "%v %q%-8") (by decide)
    (forall_mem_of_all (s := usedFlags (ascii "%v %q%-8")) (by decide))).2.1 _).trans rfl

end PatternFormatter

end Structlog
