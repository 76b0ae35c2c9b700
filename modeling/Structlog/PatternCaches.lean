import Structlog.PatternRuns

/-!
# The caches of `pattern_formatter`

`format` looks up the broken-down time of a message only if the second is another one than
that of the message before; `full_formatter` renders the date only if it is another one
than that it has rendered.  Both caches are empty at first, but the first one does not know:
`last_log_secs_` starts at second `0`, and `cached_tm_` at zero.

`TimeCached` is the invariant of the first cache.  It holds as soon as a message has been
formatted whose second is not `0`, so that the cache is transparent unless the sequence
starts in second `0` (`cached_time_transparent_iff`).  The second cache is about the first
one, right or wrong (`FullCached`), so that it is never seen (`full_formatter_expands`).
-/

namespace Structlog

open Lib FmtHelper

/-- What `get_time_` finds for a second. -/
def Environment.timeAt (env : Environment) (timeType : PatternTimeType) (seconds : ℤ) : Tm :=
  match timeType with
  | .local => env.zone.localtime seconds
  | .utc => gmtime seconds

/-- `std::memset(&cached_tm_, 0, sizeof(cached_tm_))`. -/
def Tm.zero : Tm := ⟨0, 0, 0, 0, 0, 0, 0, 0, 0⟩

namespace PatternFormatter

variable {env : Environment} {pf qf : PatternFormatter}

theorem getTime_eq (env : Environment) (msg : Record) (pf : PatternFormatter) :
    pf.getTime env msg = env.timeAt pf.patternTimeType (toTimeT msg.time) := by
  unfold getTime Environment.timeAt
  rfl

/-! ## The broken-down time -/

/-- `format`, with the broken-down time looked up for each message. -/
def formatUncached (env : Environment) (msg : Record) (t : Target) (pf : PatternFormatter) :
    Except Failure (PatternFormatter × Target) := do
  let (formatters, t) ← formatAll env.pid msg (pf.getTime env msg) pf.formatters t
  return ({ pf with formatters }, t.append pf.eol)

def stepUncached (env : Environment) (pf : PatternFormatter) (call : Record × Target) :
    Except Failure (PatternFormatter × Target) :=
  pf.formatUncached env call.1 call.2

/-- The flags get the broken-down time of the message itself, and so write what they would
without the cache. -/
structure Transparent (env : Environment) (pf : PatternFormatter)
    (calls : List (Record × Target)) : Prop where
  time : ∀ p ∈ Runs.reached (step env) pf calls,
    (p.1.refresh env p.2.1).cachedTm = p.1.getTime env p.2.1
  answers : Runs.answers (step env) pf calls = Runs.answers (stepUncached env) pf calls

/-- The cached time is that of the last second. -/
def TimeCached (env : Environment) (pf : PatternFormatter) : Prop :=
  pf.cachedTm = env.timeAt pf.patternTimeType pf.lastLogSecs

/-- The time is refreshed for the message, or right already. -/
theorem refresh_eq {msg : Record}
    (h : toTimeT msg.time ≠ pf.lastLogSecs ∨ pf.TimeCached env) :
    pf.refresh env msg =
      { pf with cachedTm := pf.getTime env msg, lastLogSecs := toTimeT msg.time } := by
  unfold refresh
  dsimp only
  split_ifs with hchanged
  · rfl
  · have hsame : toTimeT msg.time = pf.lastLogSecs := not_not.mp hchanged
    have hcached := h.resolve_left fun hne => hne hsame
    rw [getTime_eq, hsame, ← hcached]

/-- A formatter with the cache and one without it. -/
structure Uncached (env : Environment) (pf qf : PatternFormatter) : Prop where
  formatters : pf.formatters = qf.formatters
  eol : pf.eol = qf.eol
  patternTimeType : pf.patternTimeType = qf.patternTimeType
  cached : pf.TimeCached env

/-- The step: from then on the cache is right. -/
theorem step_alike {call : Record × Target}
    (h : toTimeT call.1.time ≠ pf.lastLogSecs ∨ pf.TimeCached env)
    (hformatters : pf.formatters = qf.formatters) (heol : pf.eol = qf.eol)
    (htype : pf.patternTimeType = qf.patternTimeType) :
    Runs.Alike (Uncached env) (pf.step env call) (qf.stepUncached env call) := by
  have htime : pf.getTime env call.1 = qf.getTime env call.1 := by
    rw [getTime_eq, getTime_eq, htype]
  rw [step, stepUncached, format_eq, formatUncached, refresh_eq h]
  dsimp only
  rw [hformatters, heol, htime]
  cases formatAll env.pid call.1 (qf.getTime env call.1) qf.formatters call.2 with
  | error failure => exact .failed failure
  | ok result =>
      refine .answered _ ⟨rfl, rfl, htype, ?_⟩
      rw [TimeCached, getTime_eq, htype]

theorem timeCached_step {call : Record × Target} {pf' : PatternFormatter} {t' : Target}
    (h : toTimeT call.1.time ≠ pf.lastLogSecs ∨ pf.TimeCached env)
    (hstep : pf.step env call = .ok (pf', t')) : pf'.TimeCached env := by
  have halike : Runs.Alike (Uncached env) (pf.step env call) (pf.stepUncached env call) :=
    step_alike h rfl rfl rfl
  rw [hstep] at halike
  generalize pf.stepUncached env call = answer at halike
  cases halike with
  | answered t hnext => exact hnext.cached

theorem Uncached.answers_eq (h : Uncached env pf qf) (calls : List (Record × Target)) :
    Runs.answers (step env) pf calls = Runs.answers (stepUncached env) qf calls := by
  have hstep (call : Record × Target) (_ : call ∈ calls) (pf qf : PatternFormatter)
      (h : Uncached env pf qf) :
      Runs.Alike (Uncached env) (pf.step env call) (qf.stepUncached env (id call)) :=
    step_alike (Or.inr h.cached) h.formatters h.eol h.patternTimeType
  have hrun := Runs.answers_eq_of_related hstep h
  rwa [List.map_id] at hrun

/-- The run, once the cache is right. -/
theorem time_of_cached (h : pf.TimeCached env) (calls : List (Record × Target)) :
    ∀ p ∈ Runs.reached (step env) pf calls,
      (p.1.refresh env p.2.1).cachedTm = p.1.getTime env p.2.1 := by
  intro p hp
  have hcached := Runs.invariant_of_reached (motive := TimeCached env)
    (fun call _ s s' b hs hstep => timeCached_step (Or.inr hs) hstep) h p hp
  rw [refresh_eq (Or.inr hcached)]

/-- The run from the first message on. -/
theorem transparent_cons {call : Record × Target}
    (h : toTimeT call.1.time ≠ pf.lastLogSecs ∨ pf.TimeCached env)
    (rest : List (Record × Target)) : pf.Transparent env (call :: rest) := by
  have halike : Runs.Alike (Uncached env) (pf.step env call) (pf.stepUncached env call) :=
    step_alike h rfl rfl rfl
  have hfirst : (pf.refresh env call.1).cachedTm = pf.getTime env call.1 := by
    rw [refresh_eq h]
  cases hstep : pf.step env call with
  | error failure =>
      rw [hstep] at halike
      constructor
      case time =>
        intro p hp
        rw [Runs.reached, hstep, List.mem_singleton] at hp
        rw [hp]
        exact hfirst
      case answers =>
        rw [Runs.answers, Runs.answers, hstep]
        generalize pf.stepUncached env call = answer at halike ⊢
        cases halike with
        | failed failure => rfl
  | ok result =>
      obtain ⟨pf', t'⟩ := result
      have hcached := timeCached_step h hstep
      rw [hstep] at halike
      constructor
      case time =>
        intro p hp
        rw [Runs.reached, hstep] at hp
        rcases List.mem_cons.mp hp with rfl | hp
        · exact hfirst
        · exact time_of_cached hcached rest p hp
      case answers =>
        rw [Runs.answers, Runs.answers, hstep]
        generalize pf.stepUncached env call = answer at halike ⊢
        cases halike with
        | answered t hnext => exact congrArg _ (hnext.answers_eq rest)

/-- The first message is not of second `0`, or nothing is wrong with the zeros that the
cache starts with. -/
def SoundFirst (env : Environment) (timeType : PatternTimeType) :
    List (Record × Target) → Prop
  | [] => True
  | (msg, _) :: _ => toTimeT msg.time ≠ 0 ∨ env.timeAt timeType 0 = .zero

/-- The cache of a new formatter is transparent if and only if the first message is not of
the second in which the epoch lies, or the zone has all zeros for that second. -/
theorem cached_time_transparent_iff (env : Environment) (now : ℤ) (pattern : Bytes)
    (timeType : PatternTimeType) (eol : Bytes) (calls : List (Record × Target)) :
    (new now pattern timeType eol).Transparent env calls ↔ SoundFirst env timeType calls := by
  cases calls with
  | nil => exact iff_of_true ⟨(fun p hp => nomatch hp), rfl⟩ trivial
  | cons call rest =>
      constructor
      · intro htransparent
        by_cases hzero : toTimeT call.1.time = 0
        · right
          -- the first step is reached, with the zeros in the cache
          have hmem : (new now pattern timeType eol, call) ∈
              Runs.reached (step env) (new now pattern timeType eol) (call :: rest) := by
            rw [Runs.reached]
            split <;> exact List.mem_cons_self
          have htime := htransparent.time _ hmem
          have hkept : (new now pattern timeType eol).refresh env call.1 =
              new now pattern timeType eol := if_neg (not_not.mpr hzero)
          rw [hkept, getTime_eq, hzero] at htime
          exact htime.symm
        · exact Or.inl hzero
      · rintro (hlater | hzero)
        · exact transparent_cons (Or.inl hlater) rest
        · have hcached : (new now pattern timeType eol).TimeCached env := hzero.symm
          exact transparent_cons (Or.inr hcached) rest

/-- A message at the epoch, in UTC: the year is printed as 1900. -/
theorem cached_time_stale :
    let calls : List (Record × Target) := [(LogMsg.new 0 7 {} [] .info [], ⟨[], 0, 0⟩)]
    let env : Environment := ⟨1, Zone.constant 0⟩
    let pf := new 0 (ascii "%Y-%m-%d") .utc []
    ¬ pf.Transparent env calls ∧
      Runs.answers (step env) pf calls = [.ok ⟨ascii "1900-01-00", 0, 0⟩] ∧
      Runs.answers (stepUncached env) pf calls = [.ok ⟨ascii "1970-01-01", 0, 0⟩] := by
  intro calls env pf
  have hcached : Runs.answers (step env) pf calls = [.ok ⟨ascii "1900-01-00", 0, 0⟩] := by decide
  have huncached : Runs.answers (stepUncached env) pf calls =
      [.ok ⟨ascii "1970-01-01", 0, 0⟩] := by decide
  refine ⟨?_, hcached, huncached⟩
  intro htransparent
  have hsame := htransparent.answers
  rw [hcached, huncached] at hsame
  exact absurd hsame (by decide)

/-! ## The default layout -/

/-- `[%Y-%m-%d %H:%M:%S.%e] [%n] [%^%l%$] [%s:%#] %v`, without the parts of what the message
does not have. -/
def elementaryPattern (hasName hasSource : Bool) : Bytes :=
  ascii "[%Y-%m-%d %H:%M:%S.%e] " ++ (if hasName then ascii "[%n] " else []) ++
    ascii "[%^%l%$] " ++ (if hasSource then ascii "[%s:%#] " else []) ++ ascii "%v"

/-- A call of `format` after `set_pattern` with the elementary flags for the message. -/
def elementaryStep (env : Environment) (now : ℤ) (pf : PatternFormatter)
    (call : Record × Target) : Except Failure (PatternFormatter × Target) :=
  (pf.setPattern now (elementaryPattern (0 < call.1.loggerName.length)
    !call.1.source.empty)).format env call.1 call.2

def dateFlags : List FlagFormatter :=
  [.aggregate (ascii "["), .field .Y .none, .aggregate (ascii "-"), .field .m .none,
    .aggregate (ascii "-"), .field .d .none, .aggregate (ascii " "), .field .H .none,
    .aggregate (ascii ":"), .field .M .none, .aggregate (ascii ":"), .field .S .none,
    .aggregate (ascii "."), .field .e .none]

def nameFlags (hasName : Bool) : List FlagFormatter :=
  if hasName then [.aggregate (ascii "] ["), .field .n .none] else []

def levelFlags : List FlagFormatter :=
  [.aggregate (ascii "] ["), .colorStart, .field .l .none, .colorStop]

def sourceFlags (hasSource : Bool) : List FlagFormatter :=
  if hasSource then
    [.aggregate (ascii "] ["), .field .shortFilename .none, .aggregate (ascii ":"),
      .field .sourceLinenum .none]
  else []

/-- The flags, with the literal text between them. -/
def elementaryFlags (hasName hasSource : Bool) : List FlagFormatter :=
  dateFlags ++ (nameFlags hasName ++ (levelFlags ++ (sourceFlags hasSource ++
    [.aggregate (ascii "] "), .field .v .none])))

theorem compilePattern_elementary (now : ℤ) (hasName hasSource : Bool) :
    compilePattern now (elementaryPattern hasName hasSource) =
      elementaryFlags hasName hasSource := by
  cases hasName <;> cases hasSource <;> rfl

theorem formatAll_append (pid : ℤ) (msg : Record) (tm : Tm) (fs gs : List FlagFormatter)
    (t : Target) :
    (formatAll pid msg tm (fs ++ gs) t).map Prod.snd =
      ((formatAll pid msg tm fs t).map Prod.snd).bind fun t' =>
        (formatAll pid msg tm gs t').map Prod.snd := by
  induction fs generalizing t with
  | nil => rfl
  | cons f rest ih =>
      rw [List.cons_append, formatAll_cons, formatAll_cons]
      cases f.write pid msg tm t with
      | error failure => rfl
      | ok t' =>
          have hrest := ih t'
          dsimp only [Except.bind]
          cases hall : formatAll pid msg tm (rest ++ gs) t' <;>
            cases hfirst : formatAll pid msg tm rest t' <;>
            rw [hall, hfirst] at hrest <;> exact hrest

/-! ### What the parts write -/

section Parts

variable (pid : ℤ) (msg : Record) (tm : Tm) (t : Target)

theorem formatAll_dateFlags :
    (formatAll pid msg tm dateFlags t).map Prod.snd =
      .ok (t.append (fullDatetime tm ++ pad3 (timeFraction 1000000 msg.time % 2 ^ 32).toNat)) := by
  have hwrite : ∀ f ∈ dateFlags, ∀ t,
      f.write pid msg tm t = .ok (t.append (f.unpadded pid msg tm)) := by
    intro f hf t
    simp only [dateFlags, List.mem_cons, List.not_mem_nil, or_false] at hf
    rcases hf with rfl | rfl | rfl | rfl | rfl | rfl | rfl | rfl | rfl | rfl | rfl | rfl | rfl |
      rfl <;> rfl
  have htext : dateFlags.flatMap (·.unpadded pid msg tm) =
      fullDatetime tm ++ pad3 (timeFraction 1000000 msg.time % 2 ^ 32).toNat ++ [] := by
    rw [fullDatetime]
    simp only [List.append_assoc]
    rfl
  rw [formatAll_appends hwrite, htext, List.append_nil]
  rfl

theorem formatAll_nameFlags :
    (formatAll pid msg tm (nameFlags (0 < msg.loggerName.length)) t).map Prod.snd =
      .ok (t.append (if 0 < msg.loggerName.length then ascii "] [" ++ msg.loggerName else [])) := by
  rw [nameFlags]
  by_cases hname : 0 < msg.loggerName.length
  · simp only [hname, decide_true, if_true, Target.append, ← List.append_assoc]
    rfl
  · simp only [hname, decide_false, if_false, Target.append, List.append_nil]
    rfl

theorem formatAll_levelFlags :
    (formatAll pid msg tm levelFlags t).map Prod.snd =
      .ok { dest := t.dest ++ ascii "] [" ++ msg.level.toStringView
            colorRangeStart := (t.dest ++ ascii "] [").length
            colorRangeEnd := (t.dest ++ ascii "] [" ++ msg.level.toStringView).length } :=
  rfl

/-- What is written for a source: nothing, or the name of the file and the line; or else a
null string is read. -/
def sourceParts : Except Failure Bytes :=
  if msg.source.empty then .ok []
  else
    match msg.source.filename with
    | none => .error .undefined
    | some filename =>
        .ok (ascii "] [" ++ basename filename ++ ascii ":" ++ decimalInt msg.source.line)

theorem formatAll_sourceFlags :
    (formatAll pid msg tm (sourceFlags !msg.source.empty) t).map Prod.snd =
      (sourceParts msg).map fun source => t.append source := by
  have hnil (t : Target) : formatAll pid msg tm [] t = .ok ([], t) := rfl
  rw [sourceFlags, sourceParts]
  cases hempty : msg.source.empty with
  | true => simp [hnil, Except.map, Target.append]
  | false =>
      cases hfile : msg.source.filename with
      | none =>
          simp [formatAll_cons, FlagFormatter.write, Flag.field, Flag.fieldBy,
            shortFilenameFormatter, sourceField, hempty, hfile, Except.map, Except.bind]
      | some filename =>
          simp [hnil, formatAll_cons, FlagFormatter.write, Flag.field, Flag.fieldBy,
            shortFilenameFormatter, sourceLinenumFormatter, sourceField, hempty, hfile,
            FlagFormatter.writeField, Field.write, Field.exact, PaddingInfo.none, Target.append,
            Except.map, Except.bind]

/-- The parts together are what `full_formatter` writes. -/
theorem formatAll_elementary :
    (formatAll pid msg tm
        (elementaryFlags (0 < msg.loggerName.length) !msg.source.empty) t).map Prod.snd =
      fullFormat (fullDatetime tm) msg t := by
  have hjoin : ascii "] [" = ascii "] " ++ ascii "[" := rfl
  have hlast (t : Target) :
      (formatAll pid msg tm [.aggregate (ascii "] "), .field .v .none] t).map Prod.snd =
        .ok ((t.append (ascii "] ")).append msg.payload) := rfl
  rw [elementaryFlags, formatAll_append, formatAll_dateFlags, Except.bind, formatAll_append,
    formatAll_nameFlags, Except.bind, formatAll_append, formatAll_levelFlags, Except.bind,
    formatAll_append, formatAll_sourceFlags, fullFormat_eq, sourceParts, fullSource, fullSourceBy,
    fullHead]
  simp only [hlast]
  by_cases hname : 0 < msg.loggerName.length <;> cases hempty : msg.source.empty
  all_goals
    cases msg.source.filename <;>
      simp [hname, hjoin, Target.append, Except.map, Except.bind]

end Parts

/-! ### The two formatters side by side -/

/-- A formatter with `full_formatter` alone and one with elementary flags.  The rendered date
is that of the broken-down time in the cache, which both have. -/
structure FullCached (pf qf : PatternFormatter) : Prop where
  formatters : ∃ cacheTimestamp cachedDatetime,
    pf.formatters = [.full cacheTimestamp cachedDatetime] ∧
      (cachedDatetime.length = 0 ∨
        cacheTimestamp = pf.lastLogSecs ∧ cachedDatetime = fullDatetime pf.cachedTm)
  eol : pf.eol = qf.eol
  patternTimeType : pf.patternTimeType = qf.patternTimeType
  cachedTm : pf.cachedTm = qf.cachedTm
  lastLogSecs : pf.lastLogSecs = qf.lastLogSecs

theorem lastLogSecs_refresh (env : Environment) (msg : Record) (pf : PatternFormatter) :
    (pf.refresh env msg).lastLogSecs = toTimeT msg.time := by
  unfold refresh
  dsimp only
  split_ifs with hchanged
  · rfl
  · exact (not_not.mp hchanged).symm

theorem refresh_same (env : Environment) (msg : Record) (pf : PatternFormatter) :
    (pf.refresh env msg).patternTimeType = pf.patternTimeType ∧
      (pf.refresh env msg).eol = pf.eol := by
  unfold refresh
  dsimp only
  split_ifs <;> exact ⟨rfl, rfl⟩

/-- The date that is written is that of the refreshed time. -/
theorem currentDatetime_eq (env : Environment) (msg : Record) {cacheTimestamp : ℤ}
    {cachedDatetime : Bytes}
    (h : cachedDatetime.length = 0 ∨
      cacheTimestamp = pf.lastLogSecs ∧ cachedDatetime = fullDatetime pf.cachedTm) :
    FlagFormatter.currentDatetime msg (pf.refresh env msg).cachedTm cacheTimestamp
      cachedDatetime = fullDatetime (pf.refresh env msg).cachedTm := by
  rw [FlagFormatter.currentDatetime]
  split_ifs with hstale
  · rfl
  · -- both caches are of this second
    obtain ⟨hsecs, hfilled⟩ := not_or.mp hstale
    obtain ⟨rfl, rfl⟩ := h.resolve_left hfilled
    have hkept : pf.refresh env msg = pf := if_neg (not_not.mpr (not_not.mp hsecs).symm)
    rw [hkept]

theorem FullCached.step (h : FullCached pf qf) (env : Environment) (now : ℤ)
    (call : Record × Target) :
    Runs.Alike FullCached (pf.step env call) (qf.elementaryStep env now call) := by
  obtain ⟨cacheTimestamp, cachedDatetime, hformatters, hcached⟩ := h.formatters
  have htm := cachedTm_refresh_congr h.patternTimeType h.cachedTm h.lastLogSecs env call.1
  have hdate := currentDatetime_eq env call.1 hcached
  have helementary := formatAll_elementary env.pid call.1 (pf.refresh env call.1).cachedTm call.2
  have hset : (qf.setPattern now (elementaryPattern (0 < call.1.loggerName.length)
      !call.1.source.empty)).refresh env call.1 =
        (qf.refresh env call.1).setPattern now (elementaryPattern
          (0 < call.1.loggerName.length) !call.1.source.empty) := by
    unfold refresh setPattern getTime
    dsimp only
    split_ifs <;> rfl
  rw [PatternFormatter.step, elementaryStep, format_eq, format_eq, hset, hformatters,
    setPattern, setPattern, compilePattern_elementary]
  dsimp only
  rw [formatAll_cons, FlagFormatter.write, hdate, ← htm, ← helementary]
  generalize formatAll env.pid call.1 (pf.refresh env call.1).cachedTm
    (elementaryFlags (0 < call.1.loggerName.length) !call.1.source.empty) call.2 = answer
  cases answer with
  | error failure => exact .failed failure
  | ok result =>
      dsimp only [Except.map, Except.bind]
      obtain ⟨htype, heol⟩ := refresh_same env call.1 pf
      obtain ⟨htype', heol'⟩ := refresh_same env call.1 qf
      rw [h.eol]
      refine .answered _ ⟨⟨_, _, rfl, Or.inr ⟨(lastLogSecs_refresh env call.1 pf).symm, hdate⟩⟩,
        ?_, ?_, rfl, ?_⟩
      · calc (pf.refresh env call.1).eol
            = pf.eol := heol
          _ = qf.eol := h.eol
          _ = (qf.refresh env call.1).eol := heol'.symm
      · calc (pf.refresh env call.1).patternTimeType
            = pf.patternTimeType := htype
          _ = qf.patternTimeType := h.patternTimeType
          _ = (qf.refresh env call.1).patternTimeType := htype'.symm
      · exact (lastLogSecs_refresh env call.1 pf).trans (lastLogSecs_refresh env call.1 qf).symm

/-- For any sequence of messages `%+` writes what the elementary flags write, with the same
colour range.  The elementary formatter is one over the whole sequence: it gets the pattern
for each message with `set_pattern`, which leaves its cached time as it is. -/
theorem full_formatter_expands (env : Environment) (now : ℤ) (pattern : Bytes)
    (timeType : PatternTimeType) (eol : Bytes) (calls : List (Record × Target)) :
    Runs.answers (step env) (new now (ascii "%+") timeType eol) calls =
      Runs.answers (elementaryStep env now) (new now pattern timeType eol) calls := by
  have hstart : FullCached (new now (ascii "%+") timeType eol) (new now pattern timeType eol) :=
    ⟨⟨0, [], rfl, Or.inl rfl⟩, rfl, rfl, rfl, rfl⟩
  have hstep (call : Record × Target) (_ : call ∈ calls) (pf qf : PatternFormatter)
      (h : FullCached pf qf) :
      Runs.Alike FullCached (pf.step env call) (qf.elementaryStep env now (id call)) :=
    h.step env now call
  have hrun := Runs.answers_eq_of_related hstep hstart
  rwa [List.map_id] at hrun

end PatternFormatter

end Structlog
