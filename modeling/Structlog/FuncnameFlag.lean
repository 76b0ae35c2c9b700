import Structlog.CustomFlags
import Structlog.PaddedFlags

/-!
# The padded function name

`!` marks a truncation, and is the flag of the function name.  In `%5!` the first reading
takes it; `handle_flag_` goes back to the second one when it gets a flag that it does not
know.  At the end of a pattern there is no flag, and nothing is written
(`padded_funcname_iff`).

The unknown flag is literal text, but in a formatter of its own, where the pattern without
`%5!` has it in one formatter with the literal text behind it (`Merged`).
-/

namespace Structlog

open Lib FmtHelper

/-- The characters that `handle_flag_` has a case for. -/
def builtinFlags : List Char :=
  ['+', 'n', 'l', 'L', 't', 'v', 'a', 'A', 'b', 'h', 'B', 'c', 'C', 'Y', 'D', 'x', 'm', 'd', 'H',
    'I', 'M', 'S', 'e', 'f', 'F', 'E', 'p', 'r', 'R', 'T', 'X', 'z', 'P', '^', '$', '@', 's', 'g',
    '#', '!', '%', 'u', 'i', 'o', 'O']

/-- A flag without a case. -/
theorem handleFlag_unknown {flag : UInt8} (h : Char.ofNat flag.toNat ∉ builtinFlags) (now : ℤ)
    (padding : PaddingInfo) : handleFlag now flag padding =
      if padding.truncate then
        [.field .sourceFuncname { padding with truncate := false }, .aggregate [flag]]
      else [.aggregate [charByte '%', flag]] := by
  unfold handleFlag
  split
  all_goals try rfl
  all_goals
    next hflag =>
      rw [hflag] at h
      exact absurd (by decide) h

/-- `%<side><width>!` before the rest of a pattern. -/
def funcnamePattern (padinfo : PaddingInfo) (rest : Bytes) : Bytes :=
  charByte '%' :: (padinfo.spec ++ charByte '!' :: rest)

/-- The `!` is taken for a truncation. -/
theorem handlePadspec_funcname {padinfo : PaddingInfo} (henabled : padinfo.enabled = true)
    (htruncate : padinfo.truncate = false) (rest : Bytes) :
    handlePadspec (padinfo.spec ++ charByte '!' :: rest) =
      ({ padinfo with truncate := true }, rest) := by
  have hspec := handlePadspec_spec { padinfo with truncate := true } henabled rest (.inl rfl)
  rw [← hspec, PaddingInfo.spec, PaddingInfo.spec, htruncate]
  simp only [Bool.false_eq_true, if_false, if_true, List.append_nil, List.append_assoc]
  rfl

namespace CustomFormatter

variable {κ : Type*}

/-! ## Literal text in two formatters or in one -/

/-- The same formatters, up to literal text at the start in two of them or in one. -/
inductive Merged : List (AnyFlag κ) → List (AnyFlag κ) → Prop
  | same (fs : List (AnyFlag κ)) : Merged fs fs
  | split (text more : Bytes) (fs : List (AnyFlag κ)) :
      Merged (.builtin (.aggregate text) :: .builtin (.aggregate more) :: fs)
        (.builtin (.aggregate (text ++ more)) :: fs)

theorem merged_compileLoopWith (handleFlag : UInt8 → PaddingInfo → List (AnyFlag κ))
    (rounds : ℕ) (text pattern : Bytes) :
    Merged
      (.builtin (.aggregate text) ::
        compileLoopWith handleFlag (fun text => .builtin (.aggregate text)) rounds none pattern)
      (compileLoopWith handleFlag (fun text => .builtin (.aggregate text)) rounds (some text)
        pattern) := by
  cases rounds with
  | zero => exact .same _
  | succ rounds =>
      cases pattern with
      | nil => exact .same _
      | cons c rest =>
          rw [compileLoopWith, compileLoopWith]
          split_ifs
          · rcases handlePadspec rest with ⟨padding, _ | ⟨flag, after⟩⟩ <;> exact .same _
          · obtain ⟨more, others, hmore⟩ := exists_compileLoopWith_some handleFlag
              (fun text => .builtin (.aggregate text)) rounds rest
            rw [hmore, hmore, Option.getD_none, Option.getD_some, List.append_assoc text]
            exact .split _ _ _

variable [CustomFlag κ]

/-- The rest of the pattern is compiled as it is without the flag, but for where its literal
text is split. -/
theorem compilePattern_funcname (handlers : UInt8 → Option κ) (now : ℤ) {padinfo : PaddingInfo}
    (henabled : padinfo.enabled = true) (htruncate : padinfo.truncate = false) {first : UInt8}
    (rest : Bytes) (hbuiltin : Char.ofNat first.toNat ∉ builtinFlags)
    (hcustom : handlers first = none) :
    ∃ fs, compilePattern handlers now (funcnamePattern padinfo (first :: rest)) =
        .builtin (.field .sourceFuncname padinfo) :: fs ∧
      Merged fs (compilePattern handlers now (first :: rest)) := by
  have hpercent : first ≠ charByte '%' := by
    rintro rfl
    exact hbuiltin (by decide)
  have hpadding : ({ { padinfo with truncate := true } with truncate := false } : PaddingInfo) =
      padinfo := by
    rw [← htruncate]
  have hflag : handleFlag handlers now first { padinfo with truncate := true } =
      [.builtin (.field .sourceFuncname padinfo), .builtin (.aggregate [first])] := by
    rw [handleFlag, hcustom]
    dsimp only
    rw [handleFlag_unknown hbuiltin, if_pos rfl, hpadding]
    rfl
  have hplain : compilePattern handlers now (first :: rest) =
      compileLoopWith (handleFlag handlers now) (fun text => .builtin (.aggregate text))
        rest.length (some [first]) rest := by
    rw [compilePattern, List.length_cons, compileLoopWith, if_neg hpercent]
    rfl
  have hlength : rest.length ≤ (padinfo.spec ++ charByte '!' :: first :: rest).length := by
    simp only [List.length_append, List.length_cons]
    omega
  have hmerged := merged_compileLoopWith (handleFlag handlers now) rest.length [first] rest
  rw [← hplain] at hmerged
  refine ⟨_, ?_, hmerged⟩
  rw [compilePattern, funcnamePattern, List.length_cons, compileLoopWith, if_pos rfl,
    handlePadspec_funcname henabled htruncate]
  dsimp only
  rw [hflag, compileLoopWith_rounds _ _ hlength le_rfl]
  rfl

/-! ## Formatting -/

/-- A call of `format`, for a message and a buffer. -/
def step (env : Environment) (pf : CustomFormatter κ) (call : Record × Target) :
    Except Failure (CustomFormatter κ × Target) :=
  pf.format env call.1 call.2

/-- Split literal text writes the same, and stays split. -/
theorem Merged.formatAll {fs gs : List (AnyFlag κ)} (h : Merged fs gs) (pid : ℤ) (msg : Record)
    (tm : Tm) (t : Target) :
    Runs.Alike Merged (formatAll pid msg tm fs t) (formatAll pid msg tm gs t) := by
  cases h with
  | same =>
      cases CustomFormatter.formatAll pid msg tm fs t with
      | error failure => exact .failed failure
      | ok result => exact .answered _ (.same _)
  | split text more fs =>
      have haggregate (text : Bytes) (fs : List (AnyFlag κ)) (t : Target) :
          CustomFormatter.formatAll pid msg tm (.builtin (.aggregate text) :: fs) t =
            (CustomFormatter.formatAll pid msg tm fs (t.append text)).map fun result =>
              (.builtin (.aggregate text) :: result.1, result.2) :=
        formatAll_cons pid msg tm _ fs t
      have hsplit : (t.append text).append more = t.append (text ++ more) := by
        rw [Target.append, Target.append, Target.append, List.append_assoc]
      rw [haggregate, haggregate, haggregate, hsplit]
      cases CustomFormatter.formatAll pid msg tm fs (t.append (text ++ more)) with
      | error failure => exact .failed failure
      | ok result => exact .answered _ (.split _ _ _)

/-- A message with a source location that has a function name. -/
structure HasFuncname (msg : Record) : Prop where
  source : msg.source.empty = false
  funcname : msg.source.funcname.isSome

/-- The call with the padded function name in the buffer. -/
def afterFuncname (padinfo : PaddingInfo) (call : Record × Target) : Record × Target :=
  (call.1, call.2.append (padinfo.apply (call.1.source.funcname.getD [])))

theorem format_funcname {padinfo : PaddingInfo} (henabled : padinfo.enabled = true) (pid : ℤ)
    {msg : Record} (hmsg : HasFuncname msg) (tm : Tm) (t : Target) :
    (AnyFlag.builtin (κ := κ) (.field .sourceFuncname padinfo)).format pid msg tm t =
      .ok (.builtin (.field .sourceFuncname padinfo), (afterFuncname padinfo (msg, t)).2) := by
  obtain ⟨funcname, hfuncname⟩ := Option.isSome_iff_exists.mp hmsg.funcname
  have hfield : Flag.sourceFuncname.field pid msg tm = .ok (some (.exact funcname)) := by
    simp [Flag.field, Flag.fieldBy, sourceFuncnameFormatter, sourceField, hmsg.source, hfuncname]
  have hwrite := (FlagFormatter.writeField_eq_iff henabled (.exact funcname) t).mpr (.inl rfl)
  rw [AnyFlag.format, FlagFormatter.format_eq, FlagFormatter.write, hfield, Except.bind, hwrite,
    afterFuncname, hfuncname]
  rfl

/-- A formatter of a pattern with the function name before it, and one of the pattern. -/
structure Behind (padinfo : PaddingInfo) (pf qf : CustomFormatter κ) : Prop where
  formatters : ∃ fs, pf.formatters = .builtin (.field .sourceFuncname padinfo) :: fs ∧
    Merged fs qf.formatters
  eol : pf.eol = qf.eol
  patternTimeType : pf.patternTimeType = qf.patternTimeType
  cachedTm : pf.cachedTm = qf.cachedTm
  lastLogSecs : pf.lastLogSecs = qf.lastLogSecs

/-- The step: the one behind answers what the other answers for the buffer with the name. -/
theorem Behind.step {padinfo : PaddingInfo} {pf qf : CustomFormatter κ} (h : Behind padinfo pf qf)
    (henabled : padinfo.enabled = true) (env : Environment) {call : Record × Target}
    (hmsg : HasFuncname call.1) :
    Runs.Alike (Behind padinfo) (pf.step env call) (qf.step env (afterFuncname padinfo call)) := by
  obtain ⟨fs, hformatters, hmerged⟩ := h.formatters
  have htime : pf.getTime env call.1 = qf.getTime env call.1 := by
    rw [getTime, getTime, h.patternTimeType]
  have hrefresh : (pf.refresh env call.1).eol = (qf.refresh env call.1).eol ∧
      (pf.refresh env call.1).patternTimeType = (qf.refresh env call.1).patternTimeType ∧
      (pf.refresh env call.1).cachedTm = (qf.refresh env call.1).cachedTm ∧
      (pf.refresh env call.1).lastLogSecs = (qf.refresh env call.1).lastLogSecs := by
    unfold refresh
    rw [htime, h.lastLogSecs]
    dsimp only
    split_ifs
    · exact ⟨h.eol, h.patternTimeType, rfl, rfl⟩
    · exact ⟨h.eol, h.patternTimeType, h.cachedTm, h.lastLogSecs⟩
  obtain ⟨heol, htype, htm, hsecs⟩ := hrefresh
  have hrest := hmerged.formatAll env.pid call.1 (pf.refresh env call.1).cachedTm
    (afterFuncname padinfo call).2
  have hcall : (afterFuncname padinfo call).1 = call.1 := rfl
  rw [CustomFormatter.step, CustomFormatter.step, format_eq, format_eq, hcall, hformatters,
    formatAll_cons, format_funcname henabled env.pid hmsg, ← htm, h.eol]
  dsimp only [Except.bind]
  generalize formatAll env.pid call.1 (pf.refresh env call.1).cachedTm fs _ = left at hrest
  generalize formatAll env.pid call.1 (pf.refresh env call.1).cachedTm qf.formatters _ =
    right at hrest
  cases hrest with
  | failed failure => exact .failed failure
  | answered t hmerged' => exact .answered _ ⟨⟨_, rfl, hmerged'⟩, heol, htype, htm, hsecs⟩

/-! ## At the end of a pattern -/

/-- A message from the function `f`. -/
def namedMessage : Record :=
  LogMsg.new 1700000000000000000 7 ⟨some (ascii "net.c"), 12, some (ascii "f")⟩ (ascii "net")
    .info (ascii "up")

theorem namedMessage_hasFuncname : HasFuncname namedMessage := ⟨rfl, rfl⟩

theorem compilePattern_atEnd (handlers : UInt8 → Option κ) (now : ℤ) {padinfo : PaddingInfo}
    (henabled : padinfo.enabled = true) (htruncate : padinfo.truncate = false) :
    compilePattern handlers now (funcnamePattern padinfo []) = [] := by
  rw [compilePattern, funcnamePattern, List.length_cons, compileLoopWith, if_pos rfl,
    handlePadspec_funcname henabled htruncate]
  rfl

/-- Without formatters the buffer stays as it is. -/
theorem answers_nothing (handlers : UInt8 → Option κ) (now : ℤ) {pattern : Bytes}
    (h : compilePattern handlers now pattern = []) (env : Environment)
    (timeType : PatternTimeType) (call : Record × Target) :
    Runs.answers (step env) (new now pattern timeType [] handlers) [call] = [.ok call.2] := by
  have hformatters : (new now pattern timeType [] handlers).formatters = [] := h
  have hstep : (new now pattern timeType [] handlers).step env call =
      .ok ({ (new now pattern timeType [] handlers).refresh env call.1 with formatters := [] },
        call.2) := by
    have heol : (new now pattern timeType [] handlers).eol = [] := rfl
    rw [step, format_eq, hformatters, heol]
    simp [formatAll, Except.map, Target.append]
  rw [Runs.answers, hstep]
  rfl

/-- For every sequence of messages the padded function name is written, and then what the
rest of the pattern writes by itself. -/
def FuncnameFirst (handlers : UInt8 → Option κ) (now : ℤ) (padinfo : PaddingInfo)
    (rest : Bytes) : Prop :=
  ∀ (env : Environment) (timeType : PatternTimeType) (eol : Bytes)
    (calls : List (Record × Target)), (∀ call ∈ calls, HasFuncname call.1) →
      Runs.answers (step env)
          (new now (funcnamePattern padinfo rest) timeType eol handlers) calls =
        Runs.answers (step env) (new now rest timeType eol handlers)
          (calls.map (afterFuncname padinfo))

/-- At the end of a pattern the name is missing. -/
theorem not_funcnameFirst_nil (handlers : UInt8 → Option κ) (now : ℤ) {padinfo : PaddingInfo}
    (henabled : padinfo.enabled = true) (htruncate : padinfo.truncate = false) :
    ¬ FuncnameFirst handlers now padinfo [] := by
  intro h
  have hanswers := h PatternFormatter.sampleEnvironment .utc [] [(namedMessage, ⟨[], 0, 0⟩)]
    (by simp [namedMessage_hasFuncname])
  rw [answers_nothing handlers now (compilePattern_atEnd handlers now henabled htruncate),
    List.map_singleton, answers_nothing handlers now rfl] at hanswers
  have hdest := congrArg Target.dest (Except.ok.inj (List.singleton_inj.mp hanswers))
  have hname : (afterFuncname padinfo (namedMessage, ⟨[], 0, 0⟩)).2.dest =
      padinfo.apply (ascii "f") := rfl
  have hlength := padinfo.length_apply (ascii "f")
  have hone : (ascii "f").length = 1 := rfl
  rw [← hname, ← hdest, htruncate, hone, if_neg Bool.false_ne_true, List.length_nil] at hlength
  omega

/-- A function name that is padded, before anything but a flag, is written if and only if
something follows. -/
theorem padded_funcname_iff (handlers : UInt8 → Option κ) (now : ℤ) (padinfo : PaddingInfo)
    (henabled : padinfo.enabled = true) (htruncate : padinfo.truncate = false) (rest : Bytes)
    (hfirst : ∀ c ∈ rest.head?, Char.ofNat c.toNat ∉ builtinFlags ∧ handlers c = none) :
    FuncnameFirst handlers now padinfo rest ↔ rest ≠ [] := by
  cases rest with
  | nil =>
      exact iff_of_false (not_funcnameFirst_nil handlers now henabled htruncate)
        fun hne => hne rfl
  | cons first rest =>
      obtain ⟨hbuiltin, hcustom⟩ := hfirst first rfl
      refine iff_of_true ?_ (List.cons_ne_nil _ _)
      intro env timeType eol calls hcalls
      obtain ⟨fs, hcompiled, hmerged⟩ :=
        compilePattern_funcname handlers now henabled htruncate rest hbuiltin hcustom
      have hstep (call : Record × Target) (hcall : call ∈ calls) (pf qf : CustomFormatter κ)
          (h : Behind padinfo pf qf) :
          Runs.Alike (Behind padinfo) (pf.step env call)
            (qf.step env (afterFuncname padinfo call)) :=
        h.step henabled env (hcalls call hcall)
      have hstart : Behind padinfo
          (new now (funcnamePattern padinfo (first :: rest)) timeType eol handlers)
          (new now (first :: rest) timeType eol handlers) :=
        ⟨⟨fs, hcompiled, hmerged⟩, rfl, rfl, rfl, rfl⟩
      exact Runs.answers_eq_of_related hstep hstart

/-- Before a bracket the name is written, also with a custom flag in the pattern. -/
theorem padded_funcname_iff_bracket :
    FuncnameFirst (fun flag => if flag = charByte '*' then some (TextFlag.mk (ascii "*")) else none)
      0 ⟨10, .left, false, true, by decide⟩ (ascii "] %* %v") := by
  refine (padded_funcname_iff _ 0 ⟨10, .left, false, true, by decide⟩ rfl rfl (ascii "] %* %v")
    ?_).mpr (List.cons_ne_nil _ _)
  intro c hc
  obtain rfl : charByte ']' = c := Option.some.inj hc
  exact ⟨by decide, rfl⟩

/-- The last flag of a pattern writes nothing. -/
theorem padded_funcname_dropped :
    Runs.answers (step PatternFormatter.sampleEnvironment)
        (new 0 (ascii "%10!") .utc [] fun _ => (none : Option TextFlag))
        [(namedMessage, ⟨ascii "> ", 0, 0⟩)] = [.ok ⟨ascii "> ", 0, 0⟩] ∧
      ¬ FuncnameFirst (fun _ => (none : Option TextFlag)) 0
        ⟨10, .left, false, true, by decide⟩ [] :=
  ⟨answers_nothing _ 0 rfl .., not_funcnameFirst_nil _ 0 rfl rfl⟩

end CustomFormatter

end Structlog
