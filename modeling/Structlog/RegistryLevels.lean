import Structlog.Registry

/-!
# Levels of existing and future loggers

`set_level` gives every registered logger a level and remembers it as the global
one.  `set_levels` replaces the table of the levels by name, gives the loggers in the
table theirs, and gives the others the global level if there is one among its
arguments.  A logger made later gets the level in the table or else the global one.

So an existing logger keeps the last level that any call gave to it, while a later one
only sees the last table and the last global level.  `existingLevel` and
`futureLevel` are these two as functions of the calls, `Agree` says when they are the
same, and `levels_agree_iff` that a registry computes them.
-/

namespace Structlog

open Lib

/-- The calls that set levels; `load_levels` makes one of the second kind. -/
inductive LevelCall
  | setLevel (logLevel : Level)
  | setLevels (levels : OrdMap Bytes Level) (globalLevel : Option Level)

namespace LevelCall

def toRegistryCall {φ ε : Type*} : LevelCall → RegistryCall φ ε
  | setLevel logLevel => .setLevel logLevel
  | setLevels levels globalLevel => .setLevels levels globalLevel

/-- The level that the call gives to a logger by name. -/
def entry (loggerName : Bytes) : LevelCall → Option Level
  | setLevel _ => none
  | setLevels levels _ => levels.lookup loggerName

/-- The global level that the call sets. -/
def global : LevelCall → Option Level
  | setLevel logLevel => some logLevel
  | setLevels _ globalLevel => globalLevel

/-- The call replaces the table. -/
def replaces : LevelCall → Bool
  | setLevel _ => false
  | setLevels _ _ => true

/-- The last global level that is set. -/
def lastGlobal (calls : List LevelCall) : Option Level := (calls.filterMap global).getLast?

/-- The level of a logger that was there before the call. -/
def existingLevel (loggerName : Bytes) (level : Level) (c : LevelCall) : Level :=
  ((c.entry loggerName).or c.global).getD level

/-- The entry of a logger in the table, and the global level. -/
def futureLevel (loggerName : Bytes) (settings : Option Level × Level) (c : LevelCall) :
    Option Level × Level :=
  (if c.replaces then c.entry loggerName else settings.1, c.global.getD settings.2)

/-- If some call has an entry for the logger, then after the last one of these: if the
table is replaced again, the global level is set as well or is the level of the entry
all the time; and if it is not, the last global level to be set is that level. -/
def Agree (loggerName : Bytes) (calls : List LevelCall) : Prop :=
  ∀ before c after logLevel, calls = before ++ c :: after → c.entry loggerName = some logLevel →
    (∀ d ∈ after, d.entry loggerName = none) →
    if after.any replaces then
      (lastGlobal after).isSome ∨ (lastGlobal (before ++ [c])).getD .info = logLevel
    else (lastGlobal after).getD logLevel = logLevel

/-! ## The two levels -/

theorem lastGlobal_append (first second : List LevelCall) :
    lastGlobal (first ++ second) = (lastGlobal second).or (lastGlobal first) := by
  rw [lastGlobal, List.filterMap_append, List.getLast?_append]
  rfl

/-- As long as no call names the logger it follows the global level. -/
theorem foldl_existingLevel {loggerName : Bytes} {calls : List LevelCall}
    (h : ∀ c ∈ calls, c.entry loggerName = none) (level : Level) :
    calls.foldl (existingLevel loggerName) level = (lastGlobal calls).getD level := by
  induction calls generalizing level with
  | nil => rfl
  | cons c rest ih =>
      obtain ⟨hfirst, hrest⟩ := List.forall_mem_cons.mp h
      have hsplit : lastGlobal (c :: rest) = (lastGlobal rest).or c.global := by
        rw [← List.singleton_append, lastGlobal_append]
        cases c with
        | setLevel logLevel => rfl
        | setLevels levels globalLevel => cases globalLevel <;> rfl
      rw [List.foldl_cons, ih hrest, hsplit, existingLevel, hfirst]
      cases lastGlobal rest <;> rfl

theorem foldl_futureLevel_snd (loggerName : Bytes) (calls : List LevelCall)
    (settings : Option Level × Level) :
    (calls.foldl (futureLevel loggerName) settings).2 = (lastGlobal calls).getD settings.2 := by
  induction calls using List.reverseRecOn with
  | nil => rfl
  | append_singleton calls c ih =>
      rw [List.foldl_append, lastGlobal_append, List.foldl_cons, List.foldl_nil, futureLevel, ih]
      cases c with
      | setLevel logLevel => rfl
      | setLevels levels globalLevel => cases globalLevel <;> rfl

theorem foldl_futureLevel_fst {loggerName : Bytes} {calls : List LevelCall}
    (h : ∀ c ∈ calls, c.entry loggerName = none) (settings : Option Level × Level) :
    (calls.foldl (futureLevel loggerName) settings).1 =
      if calls.any replaces then none else settings.1 := by
  induction calls generalizing settings with
  | nil => rfl
  | cons c rest ih =>
      obtain ⟨hfirst, hrest⟩ := List.forall_mem_cons.mp h
      rw [List.foldl_cons, ih hrest, List.any_cons, futureLevel, hfirst]
      cases c.replaces <;> cases rest.any replaces <;> rfl

/-- Either no call names the logger, or one is the last to do so. -/
theorem last_entry (loggerName : Bytes) (calls : List LevelCall) :
    (∀ c ∈ calls, c.entry loggerName = none) ∨
    ∃ before c after logLevel, calls = before ++ c :: after ∧
      c.entry loggerName = some logLevel ∧ ∀ d ∈ after, d.entry loggerName = none := by
  induction calls with
  | nil => exact .inl fun c hc => nomatch hc
  | cons first rest ih =>
      rcases ih with hnone | ⟨before, c, after, logLevel, rfl, hentry, hafter⟩
      · cases hfirst : first.entry loggerName with
        | none =>
            apply Or.inl
            intro c hc
            rcases List.mem_cons.mp hc with rfl | hc
            · exact hfirst
            · exact hnone c hc
        | some logLevel => exact .inr ⟨[], first, rest, logLevel, rfl, hfirst, hnone⟩
      · exact .inr ⟨first :: before, c, after, logLevel, rfl, hentry, hafter⟩

/-- Both levels after a call that names the logger and others that do not. -/
theorem levels_after_entry (before : List LevelCall) {loggerName : Bytes}
    {after : List LevelCall} {c : LevelCall} {logLevel : Level}
    (hentry : c.entry loggerName = some logLevel)
    (hafter : ∀ d ∈ after, d.entry loggerName = none) (level : Level)
    (settings : Option Level × Level) :
    (before ++ c :: after).foldl (existingLevel loggerName) level =
        (lastGlobal after).getD logLevel ∧
      (before ++ c :: after).foldl (futureLevel loggerName) settings =
        (if after.any replaces then none else some logLevel,
          ((lastGlobal after).or (lastGlobal (before ++ [c]))).getD settings.2) := by
  have hreplaces : c.replaces = true := by
    cases c with
    | setLevel _ => cases hentry
    | setLevels _ _ => rfl
  refine ⟨?_, ?_⟩
  · rw [List.foldl_append, List.foldl_cons, foldl_existingLevel hafter, existingLevel, hentry]
    rfl
  · apply Prod.ext
    · rw [List.foldl_append, List.foldl_cons, foldl_futureLevel_fst hafter, futureLevel, hentry,
        if_pos hreplaces]
    · rw [foldl_futureLevel_snd, List.append_cons, lastGlobal_append]

/-- The two levels are the same exactly where the calls agree. -/
theorem existing_eq_future_iff (loggerName : Bytes) (calls : List LevelCall) :
    calls.foldl (existingLevel loggerName) .info =
        (calls.foldl (futureLevel loggerName) (none, .info)).1.getD
          (calls.foldl (futureLevel loggerName) (none, .info)).2 ↔
      Agree loggerName calls := by
  have hsplit {before after : List LevelCall} {c : LevelCall} {logLevel : Level}
      (hentry : c.entry loggerName = some logLevel)
      (hafter : ∀ d ∈ after, d.entry loggerName = none) :
      (before ++ c :: after).foldl (existingLevel loggerName) .info =
          ((before ++ c :: after).foldl (futureLevel loggerName) (none, .info)).1.getD
            ((before ++ c :: after).foldl (futureLevel loggerName) (none, .info)).2 ↔
        if after.any replaces then
          (lastGlobal after).isSome ∨ (lastGlobal (before ++ [c])).getD .info = logLevel
        else (lastGlobal after).getD logLevel = logLevel := by
    obtain ⟨hexisting, hfuture⟩ :=
      levels_after_entry before hentry hafter .info (none, .info)
    rw [hexisting, hfuture]
    split_ifs
    · cases lastGlobal after with
      | none => simp [eq_comm]
      | some global => simp
    · rfl
  constructor
  · rintro hsame before c after logLevel rfl hentry hafter
    exact (hsplit hentry hafter).mp hsame
  · intro hagree
    rcases last_entry loggerName calls with
      hnone | ⟨before, c, after, logLevel, rfl, hentry, hafter⟩
    · -- Both follow the global level.
      have hfirst : (calls.foldl (futureLevel loggerName) (none, .info)).1 = none := by
        rw [foldl_futureLevel_fst hnone]
        exact ite_self none
      rw [foldl_existingLevel hnone, hfirst, foldl_futureLevel_snd]
      rfl
    · exact (hsplit hentry hafter).mpr
        (hagree before c after logLevel rfl hentry hafter)

end LevelCall

namespace Registry

variable {φ ε : Type*}

/-! ## What a registry does to levels -/

def levelOf (r : Registry φ ε) (a : Addr) : Level := (r.objects.logger a).level

theorem logger_eachLogger_of_not_mem {act : Bytes → LoggerObject ε → LoggerObject ε}
    {entries : List (Bytes × Addr)} {a : Addr} (hnot : a ∉ entries.map Prod.snd)
    (o : Objects φ ε) : (o.eachLogger act entries).logger a = o.logger a := by
  induction entries generalizing o with
  | nil => rfl
  | cons entry rest ih =>
      rw [List.map_cons, List.mem_cons, not_or] at hnot
      exact (ih hnot.2 _).trans (Function.update_of_ne hnot.1 _ _)

/-- A loop over loggers at different addresses. -/
theorem logger_eachLogger {act : Bytes → LoggerObject ε → LoggerObject ε}
    {entries : List (Bytes × Addr)} (hnodup : (entries.map Prod.snd).Nodup) {key : Bytes} {a : Addr}
    (hmem : (key, a) ∈ entries) (o : Objects φ ε) :
    (o.eachLogger act entries).logger a = act key (o.logger a) := by
  induction entries generalizing o with
  | nil => cases hmem
  | cons entry rest ih =>
      obtain ⟨hfirst, hrest⟩ := List.nodup_cons.mp hnodup
      rcases List.mem_cons.mp hmem with rfl | hmem
      · exact (logger_eachLogger_of_not_mem hfirst _).trans (Function.update_self ..)
      · have hne : a ≠ entry.2 := by
          rintro rfl
          exact hfirst (List.mem_map.mpr ⟨(key, entry.2), hmem, rfl⟩)
        calc (((o.onLogger entry.2 (act entry.1)).eachLogger act rest).logger a)
            = act key ((o.onLogger entry.2 (act entry.1)).logger a) := ih hrest hmem _
          _ = act key (o.logger a) := congrArg (act key) (Function.update_of_ne hne _ _)

/-- No logger is in the map twice. -/
theorem Consistent.nodup {r : Registry φ ε} (h : r.Consistent) :
    (r.loggers.entries.map Prod.snd).Nodup := by
  apply OrdMap.nodup_map_entries r.loggers id
  rintro k k' a _ hk hk' rfl
  exact (h.named k a hk).symm.trans (h.named k' a hk')

theorem Consistent.logger_eachLogger {r : Registry φ ε} (h : r.Consistent)
    (act : Bytes → LoggerObject ε → LoggerObject ε) {loggerName : Bytes} {a : Addr}
    (hget : r.get loggerName = some a) :
    (r.eachLogger act).objects.logger a = act loggerName (r.objects.logger a) :=
  Registry.logger_eachLogger h.nodup (r.loggers.mem_entries_iff.mpr hget) r.objects

/-- A call of either kind, on a registered logger. -/
theorem levelOf_step [FormatterBase φ] {r : Registry φ ε} (h : r.Consistent) {loggerName : Bytes}
    {a : Addr} (hget : r.get loggerName = some a) (c : LevelCall) :
    (r.step c.toRegistryCall).get loggerName = some a ∧
      (r.step c.toRegistryCall).levelOf a = c.existingLevel loggerName (r.levelOf a) := by
  cases c with
  | setLevel logLevel =>
      refine ⟨hget, ?_⟩
      have hlogger := h.logger_eachLogger (fun _ => .setLevel logLevel) hget
      exact congrArg LoggerObject.level hlogger
  | setLevels levels globalLevel =>
      refine ⟨hget, ?_⟩
      have hset : Consistent { r with
          logLevels := levels, globalLogLevel := globalLevel.getD r.globalLogLevel } :=
        h.frame ⟨rfl, rfl, fun _ => rfl⟩
      have hlogger := hset.logger_eachLogger (levelled levels globalLevel) hget
      apply (congrArg LoggerObject.level hlogger).trans
      rw [LevelCall.existingLevel, LevelCall.entry, LevelCall.global]
      unfold levelled
      cases levels.lookup loggerName with
      | some logLevel => rfl
      | none => cases globalLevel <;> rfl

/-- The settings for new loggers of a name. -/
def settings (loggerName : Bytes) (r : Registry φ ε) : Option Level × Level :=
  (r.logLevels.lookup loggerName, r.globalLogLevel)

theorem settings_step [FormatterBase φ] (loggerName : Bytes) (r : Registry φ ε) (c : LevelCall) :
    (r.step c.toRegistryCall).settings loggerName =
      c.futureLevel loggerName (r.settings loggerName) := by
  cases c <;> rfl

/-- A run of such calls. -/
def runLevels [FormatterBase φ] (r : Registry φ ε) (calls : List LevelCall) : Registry φ ε :=
  Runs.run step r (calls.map LevelCall.toRegistryCall)

theorem runLevels_cons [FormatterBase φ] (r : Registry φ ε) (c : LevelCall)
    (calls : List LevelCall) :
    r.runLevels (c :: calls) = (r.step c.toRegistryCall).runLevels calls := rfl

theorem levelOf_runLevels [FormatterBase φ] {r : Registry φ ε} (h : r.Consistent)
    {loggerName : Bytes} {a : Addr} (hget : r.get loggerName = some a) (calls : List LevelCall) :
    (r.runLevels calls).levelOf a =
      calls.foldl (LevelCall.existingLevel loggerName) (r.levelOf a) := by
  induction calls generalizing r with
  | nil => rfl
  | cons c rest ih =>
      obtain ⟨hget', hlevel⟩ := levelOf_step h hget c
      rw [runLevels_cons, ih (h.step c.toRegistryCall) hget', hlevel, List.foldl_cons]

theorem settings_runLevels [FormatterBase φ] (loggerName : Bytes) (r : Registry φ ε)
    (calls : List LevelCall) :
    (r.runLevels calls).settings loggerName =
      calls.foldl (LevelCall.futureLevel loggerName) (r.settings loggerName) := by
  induction calls generalizing r with
  | nil => rfl
  | cons c rest ih => rw [runLevels_cons, ih, settings_step, List.foldl_cons]

theorem frame_step_level [FormatterBase φ] (r : Registry φ ε) (c : LevelCall) (a : Addr) :
    (r.step c.toRegistryCall).nameOf a = r.nameOf a := by
  cases c with
  | setLevel logLevel =>
      exact (frame_eachLogger (f := fun _ => .setLevel logLevel) (fun _ _ => rfl) r).nameOf a
  | setLevels levels globalLevel =>
      exact (frame_eachLogger (name_levelled levels globalLevel) { r with
        logLevels := levels, globalLogLevel := globalLevel.getD r.globalLogLevel }).nameOf a

theorem nameOf_runLevels [FormatterBase φ] (r : Registry φ ε) (calls : List LevelCall) (a : Addr) :
    (r.runLevels calls).nameOf a = r.nameOf a := by
  induction calls generalizing r with
  | nil => rfl
  | cons c rest ih => rw [runLevels_cons, ih, frame_step_level]

/-! ## New loggers -/

@[simp] theorem logger_onLogger (r : Registry φ ε) (a : Addr)
    (act : LoggerObject ε → LoggerObject ε) :
    (r.onLogger a act).objects.logger a = act (r.objects.logger a) := by
  unfold onLogger Objects.onLogger
  dsimp only
  exact Function.update_self ..

/-- The backtrace is all that a new ring concerns. -/
theorem configure_cases [FormatterBase φ] (newLogger : Addr) (allocation : Option Thrown)
    (r : Registry φ ε) :
    ∃ r' : Registry φ ε, ∃ tracer : Backtracer,
      r'.levelOf newLogger =
        (r.settings (r.nameOf newLogger)).1.getD (r.settings (r.nameOf newLogger)).2 ∧
      r'.automaticRegistration = r.automaticRegistration ∧
      (r.configure newLogger allocation).2 =
        r'.onLogger newLogger fun l => { l with tracer } := by
  have htrace (r' : Registry φ ε) {level : Level} (hlevel : r'.levelOf newLogger = level)
      (hauto : r'.automaticRegistration = r.automaticRegistration) :
      ∃ r'' : Registry φ ε, ∃ tracer : Backtracer, r''.levelOf newLogger = level ∧
        r''.automaticRegistration = r.automaticRegistration ∧
        (if 0 < r'.backtraceNMessages then
          (r'.objects.callLogger newLogger
            (LoggerObject.enableBacktrace r'.backtraceNMessages allocation)).within
              fun objects => { r' with objects }
          else (none, r')).2 = r''.onLogger newLogger fun l => { l with tracer } := by
    split_ifs
    · exact ⟨r', _, hlevel, hauto, rfl⟩
    · refine ⟨r', (r'.objects.logger newLogger).tracer, hlevel, hauto, ?_⟩
      simp only [onLogger, Objects.onLogger, Function.update_eq_self]
  unfold configure
  apply htrace
  · dsimp only
    rw [levelOf, logger_onLogger, LoggerObject.flushOn, logger_onLogger, LoggerObject.setLevel]
    dsimp only
    -- The name is looked up after the error handler is set.
    split_ifs
    · have hframe := frame_onLogger (f := .setErrorHandler r.errHandler) (fun _ => rfl) newLogger
        { r with objects := r.objects.setFormatter newLogger (FormatterBase.clone r.formatter) }
      have hname := hframe.nameOf newLogger
      exact congrArg (fun n => (r.logLevels.lookup n).getD r.globalLogLevel) hname
    · rfl
  · split_ifs <;> rfl

/-- A new logger has the level in the table, or else the global one. -/
theorem levelOf_configure [FormatterBase φ] (newLogger : Addr) (allocation : Option Thrown)
    (r : Registry φ ε) :
    (r.configure newLogger allocation).2.levelOf newLogger =
      (r.settings (r.nameOf newLogger)).1.getD (r.settings (r.nameOf newLogger)).2 := by
  obtain ⟨r', tracer, hlevel, -, hsame⟩ := configure_cases newLogger allocation r
  rw [hsame, levelOf, logger_onLogger]
  exact hlevel

theorem automaticRegistration_configure [FormatterBase φ] (newLogger : Addr)
    (allocation : Option Thrown) (r : Registry φ ε) :
    (r.configure newLogger allocation).2.automaticRegistration = r.automaticRegistration := by
  obtain ⟨r', tracer, -, hauto, hsame⟩ := configure_cases newLogger allocation r
  rw [hsame]
  exact hauto

/-- What `initialize_logger` does where it does not throw. -/
theorem initializeLogger_returned [FormatterBase φ] {r : Registry φ ε} {newLogger : Addr}
    {allocation : Option Thrown} (hauto : r.automaticRegistration = true)
    (h : (r.initializeLogger newLogger allocation).1 = none) :
    (r.initializeLogger newLogger allocation).2 = { (r.configure newLogger allocation).2 with
      loggers := (r.configure newLogger allocation).2.loggers.insert (r.nameOf newLogger)
        newLogger } := by
  have hname := (frame_configure newLogger allocation r).nameOf newLogger
  rw [initializeLogger] at h ⊢
  cases hthrown : (r.configure newLogger allocation).1 with
  | some thrown =>
      rw [Outcome.andThen_threw hthrown] at h
      cases h
  | none =>
      rw [Outcome.andThen_returned hthrown, automaticRegistration_configure, if_pos hauto,
        registerLogger, hname] at h ⊢
      split at h
      · cases h
      · rfl

/-- The level of the logger depends neither on the backtrace nor on the registration. -/
theorem levelOf_initializeLogger [FormatterBase φ] (newLogger : Addr) (allocation : Option Thrown)
    (r : Registry φ ε) :
    (r.initializeLogger newLogger allocation).2.levelOf newLogger =
      (r.settings (r.nameOf newLogger)).1.getD (r.settings (r.nameOf newLogger)).2 := by
  rw [← levelOf_configure newLogger allocation, initializeLogger]
  cases hthrown : (r.configure newLogger allocation).1 with
  | some thrown => rw [Outcome.andThen_threw hthrown]
  | none =>
      rw [Outcome.andThen_returned hthrown, registerLogger]
      split_ifs
      · split <;> rfl
      · rfl

/-- The settings for levels and registration that the registry starts with. -/
structure DefaultSettings (r : Registry φ ε) : Prop where
  logLevels : ∀ loggerName, r.logLevels.lookup loggerName = none
  globalLogLevel : r.globalLogLevel = .info
  automaticRegistration : r.automaticRegistration = true

/-- A logger that was made before the calls has in the end the same level as one of
that name that is made after them, if and only if the calls agree on it. -/
theorem levels_agree_iff [FormatterBase φ] {r : Registry φ ε} (hr : r.Consistent)
    (hdefault : r.DefaultSettings) {early late : Addr} (hname : r.nameOf late = r.nameOf early)
    {allocation allocation' : Option Thrown}
    (hearly : (r.initializeLogger early allocation).1 = none) (calls : List LevelCall) :
    ((r.initializeLogger early allocation).2.runLevels calls).levelOf early =
        ((r.runLevels calls).initializeLogger late allocation').2.levelOf late ↔
      LevelCall.Agree (r.nameOf early) calls := by
  have hstart : r.settings (r.nameOf early) = (none, .info) :=
    Prod.ext (hdefault.logLevels _) hdefault.globalLogLevel
  have hget : (r.initializeLogger early allocation).2.get (r.nameOf early) = some early := by
    rw [initializeLogger_returned hdefault.automaticRegistration hearly]
    exact (OrdMap.lookup_insert ..).trans (if_pos rfl)
  have hexisting := levelOf_runLevels (hr.initializeLogger early allocation) hget calls
  rw [levelOf_initializeLogger, hstart] at hexisting
  rw [hexisting, levelOf_initializeLogger, nameOf_runLevels, hname, settings_runLevels, hstart]
  exact LevelCall.existing_eq_future_iff (r.nameOf early) calls

/-- A registry as it is constructed, and two loggers with the name `x`. -/
def twoNamedX : Registry Unit Unit :=
  new () 0 1 { logger := fun _ => { name := ascii "x", sinks := [] }, formatter := fun _ => () }

instance : FormatterBase Unit := ⟨id⟩

/-- A table with a level for `x`. -/
def levelsX (logLevel : Level) : OrdMap Bytes Level := OrdMap.empty.insert (ascii "x") logLevel

theorem defaultSettings_twoNamedX : twoNamedX.DefaultSettings := ⟨fun _ => rfl, rfl, rfl⟩

/-- A level by name after a global one reaches both. -/
theorem levels_agree_sample :
    ((twoNamedX.initializeLogger 2 none).2.runLevels
        [.setLevel .warn, .setLevels (levelsX .debug) none]).levelOf 2 =
      ((twoNamedX.runLevels [.setLevel .warn, .setLevels (levelsX .debug) none]).initializeLogger
        3 none).2.levelOf 3 := by
  apply (levels_agree_iff (consistent_new _ _ _ _) defaultSettings_twoNamedX
    (show twoNamedX.nameOf 3 = twoNamedX.nameOf 2 from rfl) (by decide) _).mpr
  apply (LevelCall.existing_eq_future_iff _ _).mp
  decide

/-- A table that no longer has `x` does not change the logger that had its level from
the table before, and a global level that comes after the table does not reach a new
logger. -/
theorem levels_disagree :
    (twoNamedX.initializeLogger 2 none).1 = none ∧
    ((twoNamedX.initializeLogger 2 none).2.runLevels
        [.setLevels (levelsX .debug) none, .setLevels .empty none]).levelOf 2 = .debug ∧
    ((twoNamedX.runLevels [.setLevels (levelsX .debug) none,
      .setLevels .empty none]).initializeLogger 3 none).2.levelOf 3 = .info ∧
    ((twoNamedX.initializeLogger 2 none).2.runLevels
        [.setLevels (levelsX .debug) none, .setLevel .err]).levelOf 2 = .err ∧
    ((twoNamedX.runLevels [.setLevels (levelsX .debug) none,
      .setLevel .err]).initializeLogger 3 none).2.levelOf 3 = .debug := by decide

end Registry

end Structlog
