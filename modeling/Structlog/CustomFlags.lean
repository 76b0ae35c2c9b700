import Mathlib.Data.List.Forall2
import Structlog.PatternOutput
import Structlog.PatternPieces
import Structlog.Registry

/-!
# Custom flags and clones

`pattern_formatter` with its `custom_handlers_`.  A pattern is compiled when the formatter
is made and when it gets a pattern, with the handlers there are then; `clone` compiles it
again, with the handlers there are now.  So a clone does what the original does unless a
flag of the pattern has been added since (`staleFlags`).

A class of custom flags is any type with its `format` and `clone`, and `Faithful` what is
asked of the second: a relation that a flag has to its clone and that makes two flags write
the same and stay related.  Then

* `alike_of_sameFlags`: two formatters with the same pattern, whose flags are related one
  by one, write the same for every message, and after it (`Alike` is the greatest such
  relation);
* `compilePattern_clone`: compiling with the cloned handlers gives related flags, whatever
  the pattern is;
* `compiled_after`: after any calls of the formatter the flags are those of its pattern, but
  for those that were added since it was set (`Compiled`).

`clonesAlike_after` is the one direction of `pattern_formatter_clone_iff`, and carries over
to the sinks of a logger that has been given clones (`clonesAlike_of_closed`).  For the
other a flag is needed that tells whether it was there: `Probe` is loud or silent, and is
loud only in a formatter that has compiled its flag since it was added
(`exists_clone_differs`).
-/

namespace Structlog

open Lib

/-! ## The formatter -/

/-- A class of `custom_flag_formatter`s. -/
class CustomFlag (κ : Type*) where
  clone : κ → κ
  setPaddingInfo : PaddingInfo → κ → κ
  format : Record → Tm → Target → κ → Except Failure (κ × Target)

/-- `same` is behaviour: what is the same writes the same, also once it has got a
padding, and a flag and its clone are the same. -/
structure CustomFlag.Faithful {κ : Type*} [CustomFlag κ] (same : κ → κ → Prop) : Prop where
  clone : ∀ k, same (CustomFlag.clone k) k
  setPaddingInfo : ∀ padding k k', same k k' →
    same (CustomFlag.setPaddingInfo padding k) (CustomFlag.setPaddingInfo padding k')
  format : ∀ msg tm t k k', same k k' →
    (CustomFlag.format msg tm t k).map Prod.snd = (CustomFlag.format msg tm t k').map Prod.snd

/-- A `flag_formatter`. -/
inductive AnyFlag (κ : Type*)
  | builtin (f : FlagFormatter)
  | custom (k : κ)

/-- `pattern_formatter`, with custom flags. -/
structure CustomFormatter (κ : Type*) where
  pattern : Bytes
  eol : Bytes
  patternTimeType : PatternTimeType
  cachedTm : Tm
  lastLogSecs : ℤ
  formatters : List (AnyFlag κ)
  customHandlers : UInt8 → Option κ

variable {κ : Type*} [CustomFlag κ]

def AnyFlag.format (pid : ℤ) (msg : Record) (tm : Tm) (t : Target) :
    AnyFlag κ → Except Failure (AnyFlag κ × Target)
  | builtin f => (f.format pid msg tm t).map fun result => (builtin result.1, result.2)
  | custom k => (CustomFlag.format msg tm t k).map fun result => (custom result.1, result.2)

namespace CustomFormatter

/-- `handle_flag_`. -/
def handleFlag (customHandlers : UInt8 → Option κ) (now : ℤ) (flag : UInt8)
    (padding : PaddingInfo) : List (AnyFlag κ) :=
  match customHandlers flag with
  | some handler => [.custom (CustomFlag.setPaddingInfo padding (CustomFlag.clone handler))]
  | none => (Structlog.handleFlag now flag padding).map .builtin

/-- `compile_pattern_`. -/
def compilePattern (customHandlers : UInt8 → Option κ) (now : ℤ) (pattern : Bytes) :
    List (AnyFlag κ) :=
  compileLoopWith (handleFlag customHandlers now) (fun text => .builtin (.aggregate text))
    pattern.length none pattern

/-- `pattern_formatter(pattern, time_type, eol, custom_user_flags)`. -/
def new (now : ℤ) (pattern : Bytes) (timeType : PatternTimeType) (eol : Bytes)
    (customUserFlags : UInt8 → Option κ) : CustomFormatter κ where
  pattern
  eol
  patternTimeType := timeType
  cachedTm := ⟨0, 0, 0, 0, 0, 0, 0, 0, 0⟩
  lastLogSecs := 0
  formatters := compilePattern customUserFlags now pattern
  customHandlers := customUserFlags

/-- `pattern_formatter(time_type, eol)`: the full formatter is there at once. -/
def newDefault (timeType : PatternTimeType) (eol : Bytes) : CustomFormatter κ where
  pattern := ascii "%+"
  eol
  patternTimeType := timeType
  cachedTm := ⟨0, 0, 0, 0, 0, 0, 0, 0, 0⟩
  lastLogSecs := 0
  formatters := [.builtin (.full 0 [])]
  customHandlers _ := none

/-- `add_flag`, with the new handler. -/
def addFlag (flag : UInt8) (handler : κ) (pf : CustomFormatter κ) : CustomFormatter κ :=
  { pf with customHandlers := Function.update pf.customHandlers flag (some handler) }

def setPattern (now : ℤ) (pattern : Bytes) (pf : CustomFormatter κ) : CustomFormatter κ :=
  { pf with pattern, formatters := compilePattern pf.customHandlers now pattern }

def clone (now : ℤ) (pf : CustomFormatter κ) : CustomFormatter κ :=
  new now pf.pattern pf.patternTimeType pf.eol fun flag =>
    (pf.customHandlers flag).map CustomFlag.clone

/-- `get_time_`. -/
def getTime (env : Environment) (msg : Record) (pf : CustomFormatter κ) : Tm :=
  match pf.patternTimeType with
  | .local => env.zone.localtime (toTimeT msg.time)
  | .utc => gmtime (toTimeT msg.time)

/-- The formatter with `cached_tm_` as it is for a message. -/
def refresh (env : Environment) (msg : Record) (pf : CustomFormatter κ) : CustomFormatter κ :=
  let secs := msg.time.tdiv nanos
  if secs ≠ pf.lastLogSecs then { pf with cachedTm := pf.getTime env msg, lastLogSecs := secs }
  else pf

/-- The loop over the formatters. -/
def formatAll (pid : ℤ) (msg : Record) (tm : Tm) :
    List (AnyFlag κ) → Target → Except Failure (List (AnyFlag κ) × Target)
  | [], t => .ok ([], t)
  | f :: rest, t => do
      let (f, t) ← f.format pid msg tm t
      let (rest, t) ← formatAll pid msg tm rest t
      return (f :: rest, t)

def format (env : Environment) (msg : Record) (t : Target) (pf : CustomFormatter κ) :
    Except Failure (CustomFormatter κ × Target) := do
  let pf := pf.refresh env msg
  let (formatters, t) ← formatAll env.pid msg pf.cachedTm pf.formatters t
  return ({ pf with formatters }, t.append pf.eol)

/-! ### Without custom flags -/

/-- A formatter without custom flags as one that has none yet. -/
def ofPlain (pf : PatternFormatter) : CustomFormatter κ where
  pattern := pf.pattern
  eol := pf.eol
  patternTimeType := pf.patternTimeType
  cachedTm := pf.cachedTm
  lastLogSecs := pf.lastLogSecs
  formatters := pf.formatters.map .builtin
  customHandlers _ := none

theorem compilePattern_noHandlers (now : ℤ) (pattern : Bytes) :
    compilePattern (fun _ => (none : Option κ)) now pattern =
      (Structlog.compilePattern now pattern).map .builtin := by
  rw [compilePattern, compileLoopWith_eq, compilePattern_eq, List.map_flatMap]
  apply congrArg (fun f => (pieces pattern).flatMap f)
  funext piece
  cases piece <;> rfl

theorem formatAll_builtin (pid : ℤ) (msg : Record) (tm : Tm) (fs : List FlagFormatter)
    (t : Target) :
    formatAll pid msg tm (fs.map (AnyFlag.builtin (κ := κ))) t =
      (PatternFormatter.formatAll pid msg tm fs t).map fun result =>
        (result.1.map .builtin, result.2) := by
  induction fs generalizing t with
  | nil => rfl
  | cons f rest ih =>
      rw [List.map_cons, formatAll, PatternFormatter.formatAll_cons, AnyFlag.format,
        FlagFormatter.format_eq]
      cases f.write pid msg tm t with
      | error failure => rfl
      | ok t' =>
          dsimp only [Except.map, bind, Except.bind]
          rw [ih]
          cases PatternFormatter.formatAll pid msg tm rest t' <;> rfl

/-- The constructors agree, and so does `format`. -/
theorem new_noHandlers (now : ℤ) (pattern : Bytes) (timeType : PatternTimeType) (eol : Bytes) :
    new now pattern timeType eol (fun _ => (none : Option κ)) =
      ofPlain (.new now pattern timeType eol) := by
  rw [new, compilePattern_noHandlers]
  rfl

theorem format_ofPlain (env : Environment) (msg : Record) (t : Target) (pf : PatternFormatter) :
    (ofPlain pf : CustomFormatter κ).format env msg t =
      (pf.format env msg t).map fun result => (ofPlain result.1, result.2) := by
  have hrefresh :
      (ofPlain pf : CustomFormatter κ).refresh env msg = ofPlain (pf.refresh env msg) := by
    unfold refresh PatternFormatter.refresh ofPlain
    dsimp only
    split_ifs <;> rfl
  rw [format, PatternFormatter.format, PatternFormatter.formatBy, hrefresh]
  dsimp only
  rw [ofPlain, formatAll_builtin, PatternFormatter.formatAll]
  cases PatternFormatter.formatAllBy basename env.pid msg (pf.refresh env msg).cachedTm
    (pf.refresh env msg).formatters t <;> rfl

/-! ## Formatters that do the same -/

/-- The two append the same bytes, or fail in the same way. -/
def Alike (pf pf' : CustomFormatter κ) : Prop :=
  ∀ env msg t, (pf.format env msg t).map Prod.snd = (pf'.format env msg t).map Prod.snd

/-- Flag formatters that do the same. -/
inductive SameFlag (same : κ → κ → Prop) : AnyFlag κ → AnyFlag κ → Prop
  | builtin (f : FlagFormatter) : SameFlag same (.builtin f) (.builtin f)
  | custom {k k' : κ} (h : same k k') : SameFlag same (.custom k) (.custom k')

variable {same : κ → κ → Prop}

theorem SameFlag.format (hsame : CustomFlag.Faithful same) {f g : AnyFlag κ}
    (h : SameFlag same f g) (pid : ℤ) (msg : Record) (tm : Tm) (t : Target) :
    (f.format pid msg tm t).map Prod.snd = (g.format pid msg tm t).map Prod.snd := by
  cases h with
  | builtin f => rfl
  | @custom k k' hk =>
      have hformat := hsame.format msg tm t k k' hk
      rw [AnyFlag.format, AnyFlag.format]
      cases hleft : CustomFlag.format msg tm t k <;>
        cases hright : CustomFlag.format msg tm t k' <;>
        rw [hleft, hright] at hformat <;> exact hformat

theorem formatAll_cons (pid : ℤ) (msg : Record) (tm : Tm) (f : AnyFlag κ)
    (rest : List (AnyFlag κ)) (t : Target) :
    formatAll pid msg tm (f :: rest) t = (f.format pid msg tm t).bind fun first =>
      (formatAll pid msg tm rest first.2).map fun result => (first.1 :: result.1, result.2) := by
  rw [formatAll]
  cases f.format pid msg tm t with
  | error failure => rfl
  | ok first =>
      dsimp only [Except.bind, bind]
      cases formatAll pid msg tm rest first.2 <;> rfl

theorem format_eq (env : Environment) (msg : Record) (t : Target) (pf : CustomFormatter κ) :
    pf.format env msg t =
      (formatAll env.pid msg (pf.refresh env msg).cachedTm pf.formatters t).map fun result =>
        ({ pf.refresh env msg with formatters := result.1 }, result.2.append pf.eol) := by
  have hrest : (pf.refresh env msg).formatters = pf.formatters ∧
      (pf.refresh env msg).eol = pf.eol := by
    unfold refresh
    dsimp only
    split_ifs <;> exact ⟨rfl, rfl⟩
  rw [format]
  dsimp only
  rw [hrest.1, hrest.2]
  cases formatAll env.pid msg (pf.refresh env msg).cachedTm pf.formatters t <;> rfl

/-- The buffer goes from one flag formatter to the next. -/
theorem formatAll_map_snd (pid : ℤ) (msg : Record) (tm : Tm) (f : AnyFlag κ)
    (rest : List (AnyFlag κ)) (t : Target) :
    (formatAll pid msg tm (f :: rest) t).map Prod.snd =
      ((f.format pid msg tm t).map Prod.snd).bind fun t' =>
        (formatAll pid msg tm rest t').map Prod.snd := by
  rw [formatAll_cons]
  cases f.format pid msg tm t with
  | error failure => rfl
  | ok first =>
      dsimp only [Except.bind, Except.map]
      cases formatAll pid msg tm rest first.2 <;> rfl

theorem formatAll_same (hsame : CustomFlag.Faithful same) {fs gs : List (AnyFlag κ)}
    (h : List.Forall₂ (SameFlag same) fs gs) (pid : ℤ) (msg : Record) (tm : Tm) (t : Target) :
    (formatAll pid msg tm fs t).map Prod.snd = (formatAll pid msg tm gs t).map Prod.snd := by
  induction h generalizing t with
  | nil => rfl
  | @cons f g fs gs hfirst _ ih =>
      calc (formatAll pid msg tm (f :: fs) t).map Prod.snd
          = ((f.format pid msg tm t).map Prod.snd).bind fun t' =>
              (formatAll pid msg tm fs t').map Prod.snd := formatAll_map_snd ..
        _ = ((g.format pid msg tm t).map Prod.snd).bind fun t' =>
              (formatAll pid msg tm gs t').map Prod.snd := by
            rw [hfirst.format hsame pid msg tm t, funext ih]
        _ = (formatAll pid msg tm (g :: gs) t).map Prod.snd := (formatAll_map_snd ..).symm

/-- The state of a formatter but for its flags and handlers. -/
structure SameState (pf pf' : CustomFormatter κ) : Prop where
  eol : pf.eol = pf'.eol
  patternTimeType : pf.patternTimeType = pf'.patternTimeType
  cachedTm : pf.cachedTm = pf'.cachedTm
  lastLogSecs : pf.lastLogSecs = pf'.lastLogSecs

theorem format_map_snd (env : Environment) (msg : Record) (t : Target) (pf : CustomFormatter κ) :
    (pf.format env msg t).map Prod.snd =
      ((formatAll env.pid msg (pf.refresh env msg).cachedTm pf.formatters t).map Prod.snd).map
        fun t' => t'.append pf.eol := by
  rw [format_eq]
  cases formatAll env.pid msg (pf.refresh env msg).cachedTm pf.formatters t <;> rfl

theorem alike_of_sameFlags (hsame : CustomFlag.Faithful same) {pf pf' : CustomFormatter κ}
    (hstate : SameState pf pf')
    (hflags : List.Forall₂ (SameFlag same) pf.formatters pf'.formatters) : Alike pf pf' := by
  intro env msg t
  have htm : (pf.refresh env msg).cachedTm = (pf'.refresh env msg).cachedTm := by
    unfold refresh getTime
    rw [hstate.lastLogSecs, hstate.patternTimeType]
    dsimp only
    split_ifs
    · rfl
    · exact hstate.cachedTm
  calc (pf.format env msg t).map Prod.snd
      = ((formatAll env.pid msg (pf.refresh env msg).cachedTm pf.formatters t).map Prod.snd).map
          fun t' => t'.append pf.eol := format_map_snd env msg t pf
    _ = ((formatAll env.pid msg (pf'.refresh env msg).cachedTm pf'.formatters t).map
          Prod.snd).map fun t' => t'.append pf'.eol := by
        rw [htm, hstate.eol, formatAll_same hsame hflags env.pid msg _ t]
    _ = (pf'.format env msg t).map Prod.snd := (format_map_snd env msg t pf').symm

/-! ## Compiling again -/

/-- For a flag without a change of its handler, the clone compiles to the same. -/
theorem handleFlag_clone (hsame : CustomFlag.Faithful same)
    {before handlers : UInt8 → Option κ} {flag : UInt8} (hhandler : before flag = handlers flag)
    (helapsed : Char.ofNat flag.toNat ∉ elapsedFlags) (now now' : ℤ) (padding : PaddingInfo) :
    List.Forall₂ (SameFlag same)
      (handleFlag (fun flag => (handlers flag).map CustomFlag.clone) now flag padding)
      (handleFlag before now' flag padding) := by
  rw [handleFlag, handleFlag, hhandler]
  cases handlers flag with
  | none =>
      rw [Option.map_none, handleFlag_now helapsed now now']
      apply List.forall₂_same.mpr
      intro f hf
      obtain ⟨f, -, rfl⟩ := List.mem_map.mp hf
      exact .builtin f
  | some handler =>
      have hclone := hsame.clone (CustomFlag.clone handler)
      exact .cons (.custom (hsame.setPaddingInfo padding _ _ hclone)) .nil

theorem compilePattern_clone (hsame : CustomFlag.Faithful same)
    {before handlers : UInt8 → Option κ} {pattern : Bytes}
    (hhandlers : ∀ flag ∈ usedFlags pattern, before flag = handlers flag)
    (helapsed : NoElapsed pattern) (now now' : ℤ) :
    List.Forall₂ (SameFlag same)
      (compilePattern (fun flag => (handlers flag).map CustomFlag.clone) now pattern)
      (compilePattern before now' pattern) := by
  rw [compilePattern, compilePattern, compileLoopWith_eq,
    compileLoopWith_eq (handleFlag before now')]
  refine List.rel_flatMap (R := fun piece piece' => piece = piece' ∧ piece ∈ pieces pattern)
    (List.forall₂_same.mpr fun piece hpiece => ⟨rfl, hpiece⟩) ?_
  rintro piece _ ⟨rfl, hpiece⟩
  cases piece with
  | literal text => exact .cons (.builtin _) .nil
  | spec flag padding =>
      have hused := mem_usedFlags.mpr ⟨padding, hpiece⟩
      exact handleFlag_clone hsame (hhandlers flag hused) (helapsed flag hused) now now' padding

/-! ## Sequences of calls -/

end CustomFormatter

/-- What makes a formatter. -/
inductive FormatterStart (κ : Type*)
  | new (now : ℤ) (pattern : Bytes) (timeType : PatternTimeType) (eol : Bytes)
      (customUserFlags : UInt8 → Option κ)
  | default (timeType : PatternTimeType) (eol : Bytes)

inductive FormatterCall (κ : Type*)
  | addFlag (flag : UInt8) (handler : κ)
  | setPattern (now : ℤ) (pattern : Bytes)

namespace FormatterStart

def build : FormatterStart κ → CustomFormatter κ
  | new now pattern timeType eol customUserFlags =>
      .new now pattern timeType eol customUserFlags
  | default timeType eol => .newDefault timeType eol

omit [CustomFlag κ]

def pattern : FormatterStart κ → Bytes
  | new _ pattern _ _ _ => pattern
  | default _ _ => ascii "%+"

/-- The same with other custom flags. -/
def map {κ' : Type*} (f : κ → κ') : FormatterStart κ → FormatterStart κ'
  | new now pattern timeType eol customUserFlags =>
      new now pattern timeType eol fun flag => (customUserFlags flag).map f
  | default timeType eol => default timeType eol

theorem map_unit (f : Unit → κ) (start : FormatterStart Unit) :
    (start.map f).map (fun _ => ()) = start := by
  cases start with
  | new now pattern timeType eol customUserFlags =>
      apply congrArg (new now pattern timeType eol)
      funext flag
      dsimp only
      cases customUserFlags flag <;> rfl
  | default timeType eol => rfl

end FormatterStart

namespace FormatterCall

omit [CustomFlag κ]

/-- The same with other custom flags. -/
def map {κ' : Type*} (f : κ → κ') : FormatterCall κ → FormatterCall κ'
  | addFlag flag handler => addFlag flag (f handler)
  | setPattern now pattern => setPattern now pattern

theorem map_unit (f : Unit → κ) (c : FormatterCall Unit) : (c.map f).map (fun _ => ()) = c := by
  cases c <;> rfl

/-- The pattern after a call. -/
def patternAfter (pattern : Bytes) : FormatterCall κ → Bytes
  | addFlag _ _ => pattern
  | setPattern _ pattern => pattern

/-- The flags that have been added since the pattern was compiled. -/
def staleAfter (stale : List UInt8) : FormatterCall κ → List UInt8
  | addFlag flag _ => flag :: stale
  | setPattern _ _ => []

end FormatterCall

/-- The pattern after the calls. -/
def patternAfter (start : FormatterStart κ) (calls : List (FormatterCall κ)) : Bytes :=
  calls.foldl FormatterCall.patternAfter start.pattern

/-- The flags that have been added after the last `set_pattern`, or since the formatter was
made if there was none. -/
def staleFlags (calls : List (FormatterCall κ)) : List UInt8 :=
  calls.foldl FormatterCall.staleAfter []

omit [CustomFlag κ] in
/-- Neither looks at the flags. -/
theorem patternAfter_map {κ' : Type*} (f : κ → κ') (start : FormatterStart κ)
    (calls : List (FormatterCall κ)) :
    patternAfter (start.map f) (calls.map (FormatterCall.map f)) = patternAfter start calls := by
  have hstart : (start.map f).pattern = start.pattern := by cases start <;> rfl
  rw [patternAfter, hstart, List.foldl_map]
  apply congrArg (fun step => calls.foldl step start.pattern)
  funext pattern c
  cases c <;> rfl

omit [CustomFlag κ] in
theorem staleFlags_map {κ' : Type*} (f : κ → κ') (calls : List (FormatterCall κ)) :
    staleFlags (calls.map (FormatterCall.map f)) = staleFlags calls := by
  rw [staleFlags, List.foldl_map]
  apply congrArg (fun step => calls.foldl step [])
  funext stale c
  cases c <;> rfl

namespace CustomFormatter

def call (pf : CustomFormatter κ) : FormatterCall κ → CustomFormatter κ
  | .addFlag flag handler => pf.addFlag flag handler
  | .setPattern now pattern => pf.setPattern now pattern

/-- The formatter after the calls. -/
def after (start : FormatterStart κ) (calls : List (FormatterCall κ)) : CustomFormatter κ :=
  calls.foldl call start.build

/-- A formatter that has not formatted anything; its pattern was compiled with the handlers
it has, but for those of the flags in `stale`. -/
structure Compiled (stale : List UInt8) (pf : CustomFormatter κ) : Prop where
  compiled : ∃ before now, pf.formatters = compilePattern before now pf.pattern ∧
    ∀ flag ∉ stale, before flag = pf.customHandlers flag
  cachedTm : pf.cachedTm = ⟨0, 0, 0, 0, 0, 0, 0, 0, 0⟩
  lastLogSecs : pf.lastLogSecs = 0

theorem compiled_build (start : FormatterStart κ) : start.build.Compiled [] := by
  cases start with
  | new now pattern timeType eol customUserFlags =>
      exact ⟨⟨customUserFlags, now, rfl, fun _ _ => rfl⟩, rfl, rfl⟩
  | default timeType eol =>
      refine ⟨⟨fun _ => none, 0, ?_, fun _ _ => rfl⟩, rfl, rfl⟩
      rw [compilePattern_noHandlers]
      rfl

theorem Compiled.call {stale : List UInt8} {pf : CustomFormatter κ} (h : pf.Compiled stale)
    (c : FormatterCall κ) : (pf.call c).Compiled (c.staleAfter stale) := by
  cases c with
  | addFlag flag handler =>
      obtain ⟨before, now, hformatters, hhandlers⟩ := h.compiled
      refine ⟨⟨before, now, hformatters, ?_⟩, h.cachedTm, h.lastLogSecs⟩
      intro other hother
      obtain ⟨hne, hother⟩ := not_or.mp (mt List.mem_cons.mpr hother)
      exact (hhandlers other hother).trans (Function.update_of_ne hne _ _).symm
  | setPattern now pattern =>
      exact ⟨⟨pf.customHandlers, now, rfl, fun _ _ => rfl⟩, h.cachedTm, h.lastLogSecs⟩

theorem compiled_after (start : FormatterStart κ) (calls : List (FormatterCall κ)) :
    (after start calls).Compiled (staleFlags calls) ∧
      (after start calls).pattern = patternAfter start calls := by
  induction calls using List.reverseRecOn with
  | nil =>
      refine ⟨compiled_build start, ?_⟩
      cases start <;> rfl
  | append_singleton calls c ih =>
      obtain ⟨hcompiled, hpattern⟩ := ih
      rw [after, staleFlags, patternAfter, List.foldl_concat, List.foldl_concat, List.foldl_concat]
      refine ⟨hcompiled.call c, ?_⟩
      cases c with
      | addFlag flag handler => exact hpattern
      | setPattern now pattern => rfl

/-- A clone of a formatter that is compiled does what the formatter does, and is compiled
itself. -/
theorem Compiled.clone {same : κ → κ → Prop} (hsame : CustomFlag.Faithful same)
    {stale : List UInt8} {pf : CustomFormatter κ} (h : pf.Compiled stale)
    (hstale : ∀ flag ∈ usedFlags pf.pattern, flag ∉ stale) (helapsed : NoElapsed pf.pattern)
    (now : ℤ) : Alike (pf.clone now) pf ∧ (pf.clone now).Compiled [] := by
  obtain ⟨before, now', hformatters, hhandlers⟩ := h.compiled
  refine ⟨?_, ?_⟩
  · have hstate : SameState (pf.clone now) pf := ⟨rfl, rfl, h.cachedTm.symm, h.lastLogSecs.symm⟩
    apply alike_of_sameFlags hsame hstate
    rw [hformatters]
    exact compilePattern_clone hsame (fun flag hused => hhandlers flag (hstale flag hused))
      helapsed now now'
  · exact compiled_build (.new now pf.pattern pf.patternTimeType pf.eol fun flag =>
      (pf.customHandlers flag).map CustomFlag.clone)

/-! ## The sinks of loggers -/

theorem Alike.trans {pf pf' pf'' : CustomFormatter κ} (h : Alike pf pf') (h' : Alike pf' pf'') :
    Alike pf pf'' :=
  fun env msg t => (h env msg t).trans (h' env msg t)

/-- The class `formatter` of the registry, with the clock at `now`. -/
abbrev formatterBase (now : ℤ) : FormatterBase (CustomFormatter κ) where
  clone := CustomFormatter.clone now

/-- A clone does what the formatter does.  So does what `logger::set_formatter` and
`registry::set_formatter` give to each sink, a sink of a `dist_sink` included. -/
structure ClonesAlike (pf : CustomFormatter κ) : Prop where
  clone : ∀ now, Alike (pf.clone now) pf
  logger : ∀ now {ε : Type} (o : Objects (CustomFormatter κ) ε) a sink,
    o.Reached (o.logger a).sinks sink →
      Alike ((@Objects.setFormatter _ _ (formatterBase now) a pf o).formatter sink) pf
  registry : ∀ now {ε : Type} (r : Registry (CustomFormatter κ) ε) loggerName a,
    r.get loggerName = some a → ∀ sink, r.objects.Reached (r.objects.logger a).sinks sink →
      Alike ((@Registry.setFormatter _ _ (formatterBase now) pf r).objects.formatter sink) pf

/-- It is enough that clones of clones go on to do so: a sink below others gets one. -/
theorem clonesAlike_of_closed {pf : CustomFormatter κ} {P : CustomFormatter κ → Prop} (hpf : P pf)
    (hclone : ∀ now f, P f → P (f.clone now)) (halike : ∀ f, P f → Alike f pf) :
    pf.ClonesAlike where
  clone now := halike _ (hclone now pf hpf)
  logger now := by
    let _ : FormatterBase (CustomFormatter κ) := formatterBase now
    intro ε o a sink hsink
    exact halike _ (Registry.setFormatter_of_reached (hclone now) hpf a o hsink)
  registry now := by
    let _ : FormatterBase (CustomFormatter κ) := formatterBase now
    intro ε r loggerName a hget sink hsink
    have hentry : (loggerName, a) ∈ r.loggers.entries := r.loggers.mem_entries_iff.mpr hget
    exact halike _ (Registry.foldl_setFormatter_of_reached (hclone now) (hclone now pf hpf)
      r.loggers.entries r.objects (Or.inr ⟨_, hentry, hsink⟩))

/-! ## Flags that tell

A flag that writes nothing and one that throws.  With the second kind for the flags added
since the pattern was compiled, the original never sees one, and the clone does. -/

/-- The last `set_pattern` and the calls of `add_flag` after it. -/
theorem split_at_setPattern (calls : List (FormatterCall Unit)) :
    ∃ before, ∃ flags : List UInt8, calls = before ++ flags.map (FormatterCall.addFlag · ()) ∧
      staleFlags before = [] ∧ staleFlags calls = flags.reverse := by
  induction calls using List.reverseRecOn with
  | nil => exact ⟨[], [], rfl, rfl, rfl⟩
  | append_singleton calls c ih =>
      obtain ⟨before, flags, hcalls, hbefore, hstale⟩ := ih
      cases c with
      | addFlag flag handler =>
          refine ⟨before, flags ++ [flag], ?_, hbefore, ?_⟩
          · rw [hcalls, List.map_append, List.append_assoc]
            rfl
          · rw [staleFlags, List.foldl_concat, ← staleFlags, hstale, List.reverse_append]
            rfl
      | setPattern now pattern =>
          have hnone : staleFlags (calls ++ [.setPattern now pattern]) = [] := by
            rw [staleFlags, List.foldl_concat]
            rfl
          exact ⟨_, [], (List.append_nil _).symm, hnone, hnone⟩

end CustomFormatter

inductive Probe
  | silent
  | loud

instance : CustomFlag Probe where
  clone := id
  setPaddingInfo _ := id
  format _ _ t
    | .silent => .ok (.silent, t)
    | .loud => .error (.threw .other)

theorem Probe.faithful : CustomFlag.Faithful (κ := Probe) (· = ·) where
  clone _ := rfl
  setPaddingInfo _ _ _ h := h
  format _ _ _ _ _ h := by rw [h]

namespace CustomFormatter

/-- A formatter with a flag that throws fails. -/
theorem formatAll_loud {fs : List (AnyFlag Probe)} (hloud : .custom .loud ∈ fs) (pid : ℤ)
    (msg : Record) (tm : Tm) (t : Target) :
    ∃ failure, formatAll pid msg tm fs t = .error failure := by
  induction fs generalizing t with
  | nil => cases hloud
  | cons f rest ih =>
      rw [formatAll]
      cases hfirst : f.format pid msg tm t with
      | error failure => exact ⟨failure, rfl⟩
      | ok first =>
          rcases List.mem_cons.mp hloud with rfl | hrest
          · cases hfirst
          · obtain ⟨failure, hfailed⟩ := ih hrest first.2
            refine ⟨failure, ?_⟩
            dsimp only [bind, Except.bind]
            rw [hfailed]

/-- A message without a source, for which no formatter finds a null string. -/
theorem readable_of_empty {msg : Record} (hempty : msg.source.empty = true) (f : FlagFormatter) :
    f.Readable msg := by
  cases f with
  | field flag padinfo => cases flag <;> simp [FlagFormatter.Readable, Flag.Readable, hempty]
  | full cacheTimestamp cachedDatetime => exact Or.inl hempty
  | _ => trivial

/-- Without such a flag it does not, if there is enough in the buffer to cut from. -/
theorem formatAll_silent {fs : List (AnyFlag Probe)} (hsilent : .custom .loud ∉ fs) (pid : ℤ)
    {msg : Record} (hempty : msg.source.empty = true) (tm : Tm) :
    ∃ enough, ∀ t : Target, enough ≤ t.dest.length →
      ∃ result, formatAll pid msg tm fs t = .ok result := by
  induction fs with
  | nil => exact ⟨0, fun t _ => ⟨([], t), rfl⟩⟩
  | cons f rest ih =>
      obtain ⟨hfirst, hrest⟩ := not_or.mp (mt List.mem_cons.mpr hsilent)
      obtain ⟨enough, ih⟩ := ih hrest
      cases f with
      | custom k =>
          cases k with
          | loud => exact absurd rfl hfirst
          | silent =>
              refine ⟨enough, fun t ht => ?_⟩
              obtain ⟨result, hresult⟩ := ih t ht
              refine ⟨(.custom .silent :: result.1, result.2), ?_⟩
              rw [formatAll]
              dsimp only [bind, Except.bind, AnyFlag.format, CustomFlag.format, Except.map]
              rw [hresult]
              rfl
      | builtin f =>
          refine ⟨enough + (f.growth pid msg tm).natAbs, fun t ht => ?_⟩
          let range : ColorRange := ⟨t.colorRangeStart, t.colorRangeEnd⟩
          have hgrowth : 0 ≤ (t.dest.length : ℤ) + f.growth pid msg tm := by omega
          have hlength := FlagFormatter.length_after hgrowth
          let t' := (f.mark msg tm t.dest.length range).over (f.after pid msg tm t.dest)
          have hwrite : f.write pid msg tm t = .ok t' :=
            FlagFormatter.write_ok range (readable_of_empty hempty f) hgrowth
          have henough : enough ≤ t'.dest.length := by
            change enough ≤ (f.after pid msg tm t.dest).length
            omega
          obtain ⟨result, hresult⟩ := ih t' henough
          refine ⟨(.builtin (f.next msg tm) :: result.1, result.2), ?_⟩
          rw [formatAll, AnyFlag.format, FlagFormatter.format_eq, hwrite]
          dsimp only [bind, Except.bind, Except.map]
          rw [hresult]
          rfl

theorem mem_compilePattern {handlers : UInt8 → Option κ} {now : ℤ} {pattern : Bytes}
    {f : AnyFlag κ} :
    f ∈ compilePattern handlers now pattern ↔ ∃ piece ∈ pieces pattern,
      f ∈ piece.compile (handleFlag handlers now) fun text => .builtin (.aggregate text) := by
  rw [compilePattern, compileLoopWith_eq]
  exact List.mem_flatMap

/-- All handlers are silent. -/
def Silent (handlers : UInt8 → Option Probe) : Prop :=
  ∀ flag k, handlers flag = some k → k = .silent

theorem compilePattern_silent {handlers : UInt8 → Option Probe} (h : Silent handlers) (now : ℤ)
    (pattern : Bytes) : .custom .loud ∉ compilePattern handlers now pattern := by
  intro hmem
  obtain ⟨piece, -, hpiece⟩ := mem_compilePattern.mp hmem
  cases piece with
  | literal text => cases List.mem_singleton.mp hpiece
  | spec flag padding =>
      rw [Piece.compile, handleFlag] at hpiece
      cases hhandler : handlers flag with
      | some handler =>
          rw [hhandler, h flag handler hhandler] at hpiece
          cases List.mem_singleton.mp hpiece
      | none =>
          rw [hhandler] at hpiece
          obtain ⟨f, -, hf⟩ := List.mem_map.mp hpiece
          cases hf

theorem silent_after (start : FormatterStart Unit) (calls : List (FormatterCall Unit)) :
    Silent (after (start.map fun _ => Probe.silent)
      (calls.map (FormatterCall.map fun _ => Probe.silent))).customHandlers := by
  induction calls using List.reverseRecOn with
  | nil =>
      intro flag k hk
      cases start with
      | new now pattern timeType eol customUserFlags =>
          obtain ⟨-, -, rfl⟩ := Option.map_eq_some_iff.mp hk
          rfl
      | default timeType eol => cases hk
  | append_singleton calls c ih =>
      rw [after, List.map_append, List.foldl_append]
      cases c with
      | addFlag flag handler =>
          intro other k (hk : Function.update (β := fun _ => Option Probe) _ flag _ other = some k)
          by_cases hflag : other = flag
          · rw [hflag, Function.update_self] at hk
            exact (Option.some.inj hk).symm
          · rw [Function.update_of_ne hflag] at hk
            exact ih other k hk
      | setPattern now pattern => exact ih

theorem formatters_silent (start : FormatterStart Unit) {calls : List (FormatterCall Unit)}
    (hcalls : staleFlags calls = []) :
    .custom .loud ∉ (after (start.map fun _ => Probe.silent)
      (calls.map (FormatterCall.map fun _ => Probe.silent))).formatters := by
  obtain ⟨compiled, now, hformatters, hhandlers⟩ :=
    (compiled_after (start.map fun _ => Probe.silent)
      (calls.map (FormatterCall.map fun _ => Probe.silent))).1.compiled
  rw [staleFlags_map, hcalls] at hhandlers
  obtain rfl := funext fun flag => hhandlers flag List.not_mem_nil
  rw [hformatters]
  exact compilePattern_silent (silent_after start calls) now _

/-- The calls of `add_flag` after the last `set_pattern`. -/
theorem foldl_addFlag (handler : κ) (flags : List UInt8) (pf : CustomFormatter κ) :
    ∃ handlers, (flags.map (FormatterCall.addFlag · handler)).foldl call pf =
        { pf with customHandlers := handlers } ∧
      ∀ flag ∈ flags, handlers flag = some handler := by
  induction flags using List.reverseRecOn with
  | nil => exact ⟨pf.customHandlers, rfl, by simp⟩
  | append_singleton flags last ih =>
      obtain ⟨handlers, hrun, hflags⟩ := ih
      refine ⟨Function.update handlers last (some handler), ?_, ?_⟩
      · rw [List.map_append, List.foldl_append, hrun]
        rfl
      · intro flag hflag
        by_cases hlast : flag = last
        · rw [hlast, Function.update_self]
        · rw [Function.update_of_ne hlast]
          have hold : flag ∈ flags :=
            (List.mem_append.mp hflag).resolve_right (mt List.mem_singleton.mp hlast)
          exact hflags flag hold

/-- A flag that is used and stale tells a formatter from its clone. -/
theorem clone_differs {pf : CustomFormatter Probe} {flag : UInt8}
    (hused : flag ∈ usedFlags pf.pattern) (hsilent : .custom .loud ∉ pf.formatters)
    (hhandler : pf.customHandlers flag = some .loud) (now : ℤ) : ¬ Alike (pf.clone now) pf := by
  intro halike
  obtain ⟨padding, hpiece⟩ := mem_usedFlags.mp hused
  have hloud : .custom .loud ∈ (pf.clone now).formatters := by
    refine mem_compilePattern.mpr ⟨_, hpiece, ?_⟩
    rw [Piece.compile, handleFlag, hhandler]
    exact List.mem_singleton_self _
  let env : Environment := ⟨0, .constant 0⟩
  let msg : Record := default
  have hempty : msg.source.empty = true := rfl
  obtain ⟨enough, hok⟩ := formatAll_silent hsilent env.pid hempty (pf.refresh env msg).cachedTm
  obtain ⟨result, hok⟩ := hok ⟨spaces enough, 0, 0⟩ (length_spaces enough).ge
  obtain ⟨failure, hfailed⟩ := formatAll_loud hloud env.pid msg
    ((pf.clone now).refresh env msg).cachedTm ⟨spaces enough, 0, 0⟩
  have hsame := halike env msg ⟨spaces enough, 0, 0⟩
  rw [format_map_snd, format_map_snd, hok, hfailed] at hsame
  cases hsame

/-- Silent flags before the last `set_pattern` and flags that throw after it: for a flag that
is used and stale the clone does something else. -/
theorem exists_clone_differs {start : FormatterStart Unit} {calls : List (FormatterCall Unit)}
    {flag : UInt8} (hused : flag ∈ usedFlags (patternAfter start calls))
    (hstale : flag ∈ staleFlags calls) :
    ∃ (start' : FormatterStart Probe) (calls' : List (FormatterCall Probe)),
      start'.map (fun _ => ()) = start ∧ calls'.map (FormatterCall.map fun _ => ()) = calls ∧
        ¬ Alike ((after start' calls').clone 0) (after start' calls') := by
  obtain ⟨before, flags, hcalls, hbefore, hflags⟩ := split_at_setPattern calls
  rw [hflags, List.mem_reverse] at hstale
  subst hcalls
  let start' := start.map fun _ => Probe.silent
  let before' := before.map (FormatterCall.map fun _ => Probe.silent)
  let late := flags.map (FormatterCall.addFlag · Probe.loud)
  have hstart : start'.map (fun _ => ()) = start := start.map_unit _
  have hlate : (before' ++ late).map (FormatterCall.map fun _ => ()) =
      before ++ flags.map (FormatterCall.addFlag · ()) := by
    rw [List.map_append, List.map_map, List.map_map]
    have hmap : FormatterCall.map (fun _ => ()) ∘ FormatterCall.map (fun _ => Probe.silent) =
        id := funext fun c => c.map_unit _
    rw [hmap, List.map_id]
    rfl
  refine ⟨start', before' ++ late, hstart, hlate, ?_⟩
  have hpattern := (compiled_after start' (before' ++ late)).2
  rw [← patternAfter_map (fun _ => ()), hstart, hlate] at hpattern
  rw [← hpattern] at hused
  have hsilent := formatters_silent start hbefore
  obtain ⟨handlers, hadded, hloud⟩ := foldl_addFlag Probe.loud flags (after start' before')
  rw [after, List.foldl_append, ← after, hadded] at hused ⊢
  exact clone_differs hused hsilent (hloud flag hstale) 0

/-- Without such a flag the clone does the same, and so does a clone of the clone. -/
theorem clonesAlike_after {same : κ → κ → Prop} (hsame : CustomFlag.Faithful same)
    {start : FormatterStart κ} {calls : List (FormatterCall κ)}
    (helapsed : NoElapsed (patternAfter start calls))
    (hstale : ∀ flag ∈ usedFlags (patternAfter start calls), flag ∉ staleFlags calls) :
    (after start calls).ClonesAlike := by
  obtain ⟨hcompiled, hpattern⟩ := compiled_after start calls
  rw [← hpattern] at hstale helapsed
  have hclone := hcompiled.clone hsame hstale helapsed
  set pf := after start calls
  -- A clone is compiled from the same pattern, and so has a clone that does the same.
  apply clonesAlike_of_closed
    (P := fun f => f = pf ∨ Alike f pf ∧ f.Compiled [] ∧ f.pattern = pf.pattern)
  case hpf => exact Or.inl rfl
  case hclone =>
    rintro now f (rfl | ⟨halike, hagain, hsamePattern⟩)
    · exact Or.inr ⟨(hclone now).1, (hclone now).2, rfl⟩
    · obtain ⟨halike', hcompiled'⟩ := hagain.clone hsame (fun _ _ => List.not_mem_nil)
        (hsamePattern ▸ helapsed) now
      exact Or.inr ⟨halike'.trans halike, hcompiled', hsamePattern⟩
  case halike =>
    rintro f (rfl | ⟨halike, -, -⟩)
    · exact fun _ _ _ => rfl
    · exact halike

end CustomFormatter

/-- Whatever the custom flags do, a clone of a formatter does what the formatter does, if no
flag of the pattern was added after the pattern was compiled; and only then. -/
theorem pattern_formatter_clone_iff (start : FormatterStart Unit)
    (calls : List (FormatterCall Unit)) (helapsed : NoElapsed (patternAfter start calls)) :
    (∀ (κ : Type) [CustomFlag κ] (same : κ → κ → Prop), CustomFlag.Faithful same →
      ∀ (start' : FormatterStart κ) (calls' : List (FormatterCall κ)),
        start'.map (fun _ => ()) = start → calls'.map (FormatterCall.map fun _ => ()) = calls →
          (CustomFormatter.after start' calls').ClonesAlike) ↔
      ∀ flag ∈ usedFlags (patternAfter start calls), flag ∉ staleFlags calls := by
  constructor
  · intro hclones flag hused hstale
    obtain ⟨start', calls', hstart, hcalls, hdiffers⟩ :=
      CustomFormatter.exists_clone_differs hused hstale
    have halike := hclones Probe (· = ·) Probe.faithful start' calls' hstart hcalls
    exact hdiffers (halike.clone 0)
  · intro hstale κ _ same hsame start' calls' hstart hcalls
    subst hstart hcalls
    rw [patternAfter_map, staleFlags_map] at hstale
    rw [patternAfter_map] at helapsed
    exact CustomFormatter.clonesAlike_after hsame helapsed hstale

/-- A flag that writes a text. -/
structure TextFlag where
  text : Bytes

instance : CustomFlag TextFlag where
  clone := id
  setPaddingInfo _ := id
  format _ _ t k := .ok (k, t.append k.text)

theorem TextFlag.faithful : CustomFlag.Faithful (κ := TextFlag) (· = ·) where
  clone _ := rfl
  setPaddingInfo _ _ _ h := h
  format _ _ _ _ _ h := by rw [h]

/-- `pattern_formatter().add_flag('*').set_pattern("%* %l %v")`. -/
theorem pattern_formatter_clone_star :
    (CustomFormatter.after (.default .local (ascii "\n"))
      [.addFlag (charByte '*') (⟨ascii "custom"⟩ : TextFlag),
        .setPattern 0 (ascii "%* %l %v")]).ClonesAlike :=
  (pattern_formatter_clone_iff (.default .local (ascii "\n"))
    [.addFlag (charByte '*') (), .setPattern 0 (ascii "%* %l %v")] (by decide +kernel)).mpr
    (by decide +kernel) TextFlag (· = ·) TextFlag.faithful _ _ rfl rfl

/-- The bytes appended to an empty buffer. -/
def CustomFormatter.appended (env : Environment) (msg : Record) (pf : CustomFormatter κ) :
    Option Bytes :=
  (pf.format env msg ⟨[], 0, 0⟩).toOption.map (·.2.dest)

/-- `pattern_formatter("%*").add_flag('*')`, which is given to a logger with two sinks. -/
theorem pattern_formatter_clone_late :
    let pf := CustomFormatter.after
      (.new 0 (ascii "%*") .local (ascii "\n") fun _ => none)
      [.addFlag (charByte '*') (⟨ascii "custom"⟩ : TextFlag)]
    let o : Objects (CustomFormatter TextFlag) Unit :=
      { logger := fun _ => { name := [], sinks := [1, 2] }, formatter := fun _ => pf }
    let formatter := (@Objects.setFormatter _ _ (CustomFormatter.formatterBase 0) 0 pf o).formatter
    let env : Environment := ⟨0, .constant 0⟩
    NoElapsed pf.pattern ∧ CustomFlag.Faithful (κ := TextFlag) (· = ·) ∧
      pf.appended env default = some (ascii "%*\n") ∧
      (pf.clone 0).appended env default = some (ascii "custom\n") ∧
      (formatter 1).appended env default = some (ascii "custom\n") ∧
      (formatter 2).appended env default = some (ascii "%*\n") := by
  intro pf o formatter env
  let _ : FormatterBase (CustomFormatter TextFlag) := CustomFormatter.formatterBase 0
  have hgiven : o.assignments pf [1, 2] = [(1, pf.clone 0), (2, pf)] := by
    rw [Objects.assignments, Objects.assignments, Registry.sinkAssignments_of_none rfl,
      Registry.sinkAssignments_of_none rfl]
    · rfl
    · exact List.cons_ne_nil _ _
  have hformatter : formatter = Objects.assign o.formatter [(1, pf.clone 0), (2, pf)] :=
    congrArg (Objects.assign o.formatter) hgiven
  rw [hformatter]
  exact ⟨by decide +kernel, TextFlag.faithful, by decide +kernel⟩

end Structlog
