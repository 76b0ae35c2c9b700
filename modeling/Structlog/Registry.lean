import Mathlib.Logic.Function.Basic
import Mathlib.Logic.Relation
import Structlog.Backtracer
import Structlog.Lib.OrdMap
import Structlog.Lib.Runs

/-!
# `registry`

The loggers by name, and the settings that a new logger gets.  A logger is an object
at an address, which a `shared_ptr` is; the registry, its callers and other loggers
may share it, and its sinks may be shared too.  So the objects are part of the state,
and the name map and `default_logger_` hold addresses.

`set_formatter` is a virtual function of the sinks: a `dist_sink` gives clones to the
sinks below it, which may be shared again.  What the calls assign is a list in the order
of the assignments, and `mem_assignments_iff` says that they go to the sinks reached
from the logger.

`Consistent` is the invariant: a logger is stored under its own name, and the default
logger is in the map.  Most calls touch neither (`Frame`), the others have a lemma each,
and `Consistent.step` goes through all of them.  Registering a logger may throw, and so
may making the rings of `enable_backtrace`, which stops at the first logger whose ring
cannot be made; `call_threw` says that the map stays as it was.  `registry_invariant`
puts these together for every sequence of calls.
-/

namespace Structlog

open Lib

/-- The class `formatter`, as far as loggers and the registry use it. -/
class FormatterBase (φ : Type*) where
  clone : φ → φ

/-- A `logger`, without what only logging uses. -/
structure LoggerObject (ε : Type*) where
  name : Bytes
  sinks : List Addr
  level : Level := .info
  flushLevel : Level := .off
  customErrHandler : Option ε := none
  tracer : Backtracer := .initial

theorem wellFounded_none : WellFounded fun sub sink : Addr => sub ∈ (fun _ => []) sink :=
  ⟨fun sink => ⟨sink, fun _ hsub => absurd hsub List.not_mem_nil⟩⟩

/-- The loggers and the sinks that there are. -/
structure Objects (φ ε : Type*) where
  logger : Addr → LoggerObject ε
  /-- The formatter of a sink. -/
  formatter : Addr → φ
  /-- The sinks of a `dist_sink`. -/
  subSinks : Addr → List Addr := fun _ => []
  /-- No sink is below itself. -/
  wellFounded : WellFounded fun sub sink => sub ∈ subSinks sink := by exact wellFounded_none

structure Registry (φ ε : Type*) where
  objects : Objects φ ε
  loggers : OrdMap Bytes Addr
  logLevels : OrdMap Bytes Level
  formatter : φ
  globalLogLevel : Level
  flushLevel : Level
  errHandler : Option ε
  tp : Option Addr
  /-- The interval of the periodic flusher, in seconds. -/
  periodicFlusher : Option ℕ
  defaultLogger : Option Addr
  automaticRegistration : Bool
  backtraceNMessages : ℕ

inductive RegistryCall (φ ε : Type*)
  | registerLogger (newLogger : Addr)
  /-- `allocation` is what the memory for its backtrace throws. -/
  | initializeLogger (newLogger : Addr) (allocation : Option Thrown := none)
  | setDefaultLogger (newDefaultLogger : Option Addr)
  | setTp (tp : Option Addr)
  | setFormatter (formatter : φ)
  /-- `allocation` is what the memory for a logger of that name throws. -/
  | enableBacktrace (nMessages : ℕ) (allocation : Bytes → Option Thrown := fun _ => none)
  | disableBacktrace
  | setLevel (logLevel : Level)
  | flushOn (logLevel : Level)
  | flushEvery (interval : ℕ)
  | setErrorHandler (handler : Option ε)
  | drop (loggerName : Bytes)
  | dropAll
  | shutdown
  | setAutomaticRegistration (automaticRegistration : Bool)
  | setLevels (levels : OrdMap Bytes Level) (globalLevel : Option Level)

variable {φ ε : Type*}

/-! ## Loggers -/

namespace Objects

/-- A member function of the logger at `a`. -/
def onLogger (a : Addr) (act : LoggerObject ε → LoggerObject ε) (o : Objects φ ε) :
    Objects φ ε :=
  { o with logger := Function.update o.logger a (act (o.logger a)) }

/-- A member function that may throw. -/
def callLogger (a : Addr) (call : LoggerObject ε → Outcome (LoggerObject ε)) (o : Objects φ ε) :
    Outcome (Objects φ ε) :=
  (call (o.logger a)).within fun l => o.onLogger a fun _ => l

/-- The assignments of `sink::set_formatter`: a `dist_sink` keeps the formatter and then
gives a clone of it to each of its sinks. -/
def sinkAssignments [FormatterBase φ] (o : Objects φ ε) (f : φ) (sink : Addr) : List (Addr × φ) :=
  (sink, f) :: (o.subSinks sink).attach.flatMap fun sub =>
    o.sinkAssignments (FormatterBase.clone f) sub.1
termination_by o.wellFounded.wrap sink
decreasing_by exact sub.2

/-- The assignments of `logger::set_formatter`: every sink but the last gets a clone. -/
def assignments [FormatterBase φ] (o : Objects φ ε) (f : φ) : List Addr → List (Addr × φ)
  | [] => []
  | [last] => o.sinkAssignments f last
  | sink :: rest => o.sinkAssignments (FormatterBase.clone f) sink ++ o.assignments f rest

/-- Assign one after the other. -/
def assign (formatter : Addr → φ) (given : List (Addr × φ)) : Addr → φ :=
  given.foldl (fun formatter entry => Function.update formatter entry.1 entry.2) formatter

/-- `logger::set_formatter`. -/
def setFormatter [FormatterBase φ] (a : Addr) (f : φ) (o : Objects φ ε) : Objects φ ε :=
  { o with formatter := assign o.formatter (o.assignments f (o.logger a).sinks) }

@[simp] theorem logger_setFormatter [FormatterBase φ] (a : Addr) (f : φ) (o : Objects φ ε) :
    (o.setFormatter a f).logger = o.logger := rfl

/-- The sink is one of these or below one of them. -/
def Reached (o : Objects φ ε) (sinks : List Addr) (sink : Addr) : Prop :=
  ∃ top ∈ sinks, Relation.ReflTransGen (fun above sub => sub ∈ o.subSinks above) top sink

/-- A member function of every logger in the map, which may depend on the key. -/
def eachLogger (act : Bytes → LoggerObject ε → LoggerObject ε) (entries : List (Bytes × Addr))
    (o : Objects φ ε) : Objects φ ε :=
  entries.foldl (fun o entry => o.onLogger entry.2 (act entry.1)) o

/-- The same for one that may throw, which ends the loop. -/
def callEach (call : Bytes → LoggerObject ε → Outcome (LoggerObject ε))
    (entries : List (Bytes × Addr)) (o : Objects φ ε) : Outcome (Objects φ ε) :=
  (Outcome.each (fun entry o => o.callLogger entry.2 (call entry.1)) entries o).2

end Objects

namespace LoggerObject

def setLevel (logLevel : Level) (l : LoggerObject ε) : LoggerObject ε :=
  { l with level := logLevel }

def flushOn (logLevel : Level) (l : LoggerObject ε) : LoggerObject ε :=
  { l with flushLevel := logLevel }

def setErrorHandler (handler : Option ε) (l : LoggerObject ε) : LoggerObject ε :=
  { l with customErrHandler := handler }

def enableBacktrace (nMessages : ℕ) (allocation : Option Thrown) (l : LoggerObject ε) :
    Outcome (LoggerObject ε) :=
  (l.tracer.enable nMessages allocation).within fun tracer => { l with tracer }

def disableBacktrace (l : LoggerObject ε) : LoggerObject ε :=
  { l with tracer := l.tracer.disable }

end LoggerObject

namespace Registry

/-! ## The calls -/

/-- The constructor, which makes the default logger and its sink. -/
def new (defaultFormatter : φ) (defaultLogger colorSink : Addr) (o : Objects φ ε) :
    Registry φ ε where
  objects := o.onLogger defaultLogger fun _ => { name := [], sinks := [colorSink] }
  loggers := OrdMap.empty.insert [] defaultLogger
  logLevels := .empty
  formatter := defaultFormatter
  globalLogLevel := .info
  flushLevel := .off
  errHandler := none
  tp := none
  periodicFlusher := none
  defaultLogger := some defaultLogger
  automaticRegistration := true
  backtraceNMessages := 0

def onLogger (a : Addr) (act : LoggerObject ε → LoggerObject ε) (r : Registry φ ε) :
    Registry φ ε :=
  { r with objects := r.objects.onLogger a act }

def eachLogger (act : Bytes → LoggerObject ε → LoggerObject ε) (r : Registry φ ε) :
    Registry φ ε :=
  { r with objects := r.objects.eachLogger act r.loggers.entries }

def nameOf (r : Registry φ ε) (a : Addr) : Bytes := (r.objects.logger a).name

/-- `throw_if_exists_`. -/
def throwIfExists (loggerName : Bytes) (r : Registry φ ε) : Option Thrown :=
  if (r.loggers.lookup loggerName).isSome then
    some (spdlogEx (ascii "logger with name '" ++ loggerName ++ ascii "' already exists"))
  else none

/-- `register_logger_`, and `register_logger`. -/
def registerLogger (newLogger : Addr) (r : Registry φ ε) : Outcome (Registry φ ε) :=
  match r.throwIfExists (r.nameOf newLogger) with
  | some thrown => (some thrown, r)
  | none => (none, { r with loggers := r.loggers.insert (r.nameOf newLogger) newLogger })

/-- The settings that `initialize_logger` gives to a logger. -/
def configure [FormatterBase φ] (newLogger : Addr) (allocation : Option Thrown)
    (r : Registry φ ε) : Outcome (Registry φ ε) :=
  let r := { r with
    objects := r.objects.setFormatter newLogger (FormatterBase.clone r.formatter) }
  let r := if r.errHandler.isSome then
      r.onLogger newLogger (.setErrorHandler r.errHandler)
    else r
  -- set new level according to previously configured level or default level
  let newLevel := (r.logLevels.lookup (r.nameOf newLogger)).getD r.globalLogLevel
  let r := r.onLogger newLogger (.setLevel newLevel)
  let r := r.onLogger newLogger (.flushOn r.flushLevel)
  if 0 < r.backtraceNMessages then
    (r.objects.callLogger newLogger
      (LoggerObject.enableBacktrace r.backtraceNMessages allocation)).within
        fun objects => { r with objects }
  else (none, r)

def initializeLogger [FormatterBase φ] (newLogger : Addr) (allocation : Option Thrown)
    (r : Registry φ ε) : Outcome (Registry φ ε) :=
  (r.configure newLogger allocation).andThen fun r =>
    if r.automaticRegistration then r.registerLogger newLogger else (none, r)

def get (loggerName : Bytes) (r : Registry φ ε) : Option Addr := r.loggers.lookup loggerName

/-- The map without the default logger. -/
def withoutDefault (r : Registry φ ε) : OrdMap Bytes Addr :=
  match r.defaultLogger with
  | some a => r.loggers.erase (r.nameOf a)
  | none => r.loggers

def setDefaultLogger (newDefaultLogger : Option Addr) (r : Registry φ ε) : Registry φ ε :=
  match newDefaultLogger with
  | some a =>
      { r with
        loggers := r.withoutDefault.insert (r.nameOf a) a
        defaultLogger := some a }
  | none => { r with loggers := r.withoutDefault, defaultLogger := none }

/-- `set_formatter`: every logger gets a clone. -/
def setFormatter [FormatterBase φ] (f : φ) (r : Registry φ ε) : Registry φ ε :=
  { r with
    formatter := f
    objects := r.loggers.entries.foldl
      (fun o entry => o.setFormatter entry.2 (FormatterBase.clone f)) r.objects }

/-- `enable_backtrace`; the loop over the loggers ends where one throws. -/
def enableBacktrace (nMessages : ℕ) (allocation : Bytes → Option Thrown) (r : Registry φ ε) :
    Outcome (Registry φ ε) :=
  (r.objects.callEach (fun key => LoggerObject.enableBacktrace nMessages (allocation key))
    r.loggers.entries).within fun objects => { r with objects, backtraceNMessages := nMessages }

def disableBacktrace (r : Registry φ ε) : Registry φ ε :=
  eachLogger (fun _ => .disableBacktrace) { r with backtraceNMessages := 0 }

def setLevel (logLevel : Level) (r : Registry φ ε) : Registry φ ε :=
  { r.eachLogger (fun _ => .setLevel logLevel) with globalLogLevel := logLevel }

def flushOn (logLevel : Level) (r : Registry φ ε) : Registry φ ε :=
  { r.eachLogger (fun _ => .flushOn logLevel) with flushLevel := logLevel }

def setErrorHandler (handler : Option ε) (r : Registry φ ε) : Registry φ ε :=
  { r.eachLogger (fun _ => .setErrorHandler handler) with errHandler := handler }

def drop (loggerName : Bytes) (r : Registry φ ε) : Registry φ ε :=
  { r with
    loggers := r.loggers.erase loggerName
    defaultLogger := r.defaultLogger.filter fun a => r.nameOf a ≠ loggerName }

def dropAll (r : Registry φ ε) : Registry φ ε := { r with loggers := .empty, defaultLogger := none }

def shutdown (r : Registry φ ε) : Registry φ ε :=
  { dropAll { r with periodicFlusher := none } with tp := none }

/-- What `set_levels` does to a logger. -/
def levelled (levels : OrdMap Bytes Level) (globalLevel : Option Level) (loggerName : Bytes)
    (l : LoggerObject ε) : LoggerObject ε :=
  match levels.lookup loggerName with
  | some logLevel => l.setLevel logLevel
  | none =>
      match globalLevel with
      | some logLevel => l.setLevel logLevel
      | none => l

def setLevels (levels : OrdMap Bytes Level) (globalLevel : Option Level) (r : Registry φ ε) :
    Registry φ ε :=
  eachLogger (levelled levels globalLevel)
    { r with logLevels := levels, globalLogLevel := globalLevel.getD r.globalLogLevel }

def call [FormatterBase φ] (r : Registry φ ε) : RegistryCall φ ε → Outcome (Registry φ ε)
  | .registerLogger newLogger => r.registerLogger newLogger
  | .initializeLogger newLogger allocation => r.initializeLogger newLogger allocation
  | .setDefaultLogger newDefaultLogger => (none, r.setDefaultLogger newDefaultLogger)
  | .setTp tp => (none, { r with tp })
  | .setFormatter formatter => (none, r.setFormatter formatter)
  | .enableBacktrace nMessages allocation => r.enableBacktrace nMessages allocation
  | .disableBacktrace => (none, r.disableBacktrace)
  | .setLevel logLevel => (none, r.setLevel logLevel)
  | .flushOn logLevel => (none, r.flushOn logLevel)
  | .flushEvery interval => (none, { r with periodicFlusher := some interval })
  | .setErrorHandler handler => (none, r.setErrorHandler handler)
  | .drop loggerName => (none, r.drop loggerName)
  | .dropAll => (none, r.dropAll)
  | .shutdown => (none, r.shutdown)
  | .setAutomaticRegistration automaticRegistration => (none, { r with automaticRegistration })
  | .setLevels levels globalLevel => (none, r.setLevels levels globalLevel)

/-- A call, whether it throws or not. -/
def step [FormatterBase φ] (r : Registry φ ε) (c : RegistryCall φ ε) : Registry φ ε := (r.call c).2

/-! ## Formatters -/

section Formatters

variable [FormatterBase φ] {P : φ → Prop} {f : φ}

theorem sinkAssignments_eq (o : Objects φ ε) (f : φ) (sink : Addr) :
    o.sinkAssignments f sink = (sink, f) ::
      (o.subSinks sink).flatMap fun sub => o.sinkAssignments (FormatterBase.clone f) sub := by
  rw [Objects.sinkAssignments]
  simp only [List.flatMap_subtype, List.unattach_attach]

/-- Most sinks have none below them. -/
theorem sinkAssignments_of_none {o : Objects φ ε} {sink : Addr} (h : o.subSinks sink = []) (f : φ) :
    o.sinkAssignments f sink = [(sink, f)] := by
  rw [sinkAssignments_eq, h, List.flatMap_nil]

/-- A sink gives something to itself and to the sinks below it. -/
theorem mem_sinkAssignments_iff (o : Objects φ ε) (f : φ) (top sink : Addr) :
    sink ∈ (o.sinkAssignments f top).map Prod.fst ↔
      Relation.ReflTransGen (fun above sub => sub ∈ o.subSinks above) top sink := by
  induction top using o.wellFounded.induction generalizing f with
  | _ top ih =>
      rw [sinkAssignments_eq, List.map_cons, List.mem_cons, List.map_flatMap, List.mem_flatMap,
        Relation.ReflTransGen.cases_head_iff]
      exact or_congr eq_comm (exists_congr fun sub => and_congr_right fun hsub => ih sub hsub _)

theorem mem_assignments_iff (o : Objects φ ε) (f : φ) (sinks : List Addr) (sink : Addr) :
    sink ∈ (o.assignments f sinks).map Prod.fst ↔ o.Reached sinks sink := by
  fun_induction Objects.assignments o f sinks with
  | case1 => simp [Objects.Reached]
  | case2 last => simp [Objects.Reached, mem_sinkAssignments_iff]
  | case3 first rest _ ih =>
      rw [List.map_append, List.mem_append, ih, mem_sinkAssignments_iff, Objects.Reached,
        Objects.Reached, List.exists_mem_cons_iff]

/-- What is given is the formatter, or a clone, or a clone of that, and so on. -/
theorem forall_sinkAssignments (hclone : ∀ g, P g → P (FormatterBase.clone g)) (o : Objects φ ε)
    (hf : P f) (top : Addr) : ∀ entry ∈ o.sinkAssignments f top, P entry.2 := by
  induction top using o.wellFounded.induction generalizing f with
  | _ top ih =>
      rw [sinkAssignments_eq, List.forall_mem_cons]
      refine ⟨hf, fun entry hentry => ?_⟩
      obtain ⟨sub, hsub, hgiven⟩ := List.mem_flatMap.mp hentry
      exact ih sub hsub (hclone f hf) entry hgiven

theorem forall_assignments (hclone : ∀ g, P g → P (FormatterBase.clone g)) (o : Objects φ ε)
    (hf : P f) (sinks : List Addr) : ∀ entry ∈ o.assignments f sinks, P entry.2 := by
  fun_induction Objects.assignments o f sinks with
  | case1 => exact fun entry hentry => absurd hentry List.not_mem_nil
  | case2 last => exact forall_sinkAssignments hclone o hf last
  | case3 first rest _ ih =>
      exact List.forall_mem_append.mpr
        ⟨forall_sinkAssignments hclone o (hclone f hf) first, ih⟩

omit [FormatterBase φ] in
theorem assign_of_not_mem {given : List (Addr × φ)} {sink : Addr}
    (hother : sink ∉ given.map Prod.fst) (formatter : Addr → φ) :
    Objects.assign formatter given sink = formatter sink := by
  induction given generalizing formatter with
  | nil => rfl
  | cons entry rest ih =>
      rw [List.map_cons, List.mem_cons, not_or] at hother
      exact (ih hother.2 _).trans (Function.update_of_ne hother.1 _ _)

omit [FormatterBase φ] in
theorem assign_of_mem {given : List (Addr × φ)} (hgiven : ∀ entry ∈ given, P entry.2)
    {sink : Addr} (hsink : sink ∈ given.map Prod.fst) (formatter : Addr → φ) :
    P (Objects.assign formatter given sink) := by
  induction given generalizing formatter with
  | nil => cases hsink
  | cons entry rest ih =>
      obtain ⟨hentry, hrest⟩ := List.forall_mem_cons.mp hgiven
      by_cases hmem : sink ∈ rest.map Prod.fst
      · exact ih hrest hmem _
      · obtain rfl := (List.mem_cons.mp hsink).resolve_right hmem
        have hkept := assign_of_not_mem hmem (Function.update formatter entry.1 entry.2)
        rw [Function.update_self] at hkept
        exact hkept ▸ hentry

theorem setFormatter_of_not_reached (a : Addr) (f : φ) (o : Objects φ ε) {sink : Addr}
    (hother : ¬ o.Reached (o.logger a).sinks sink) :
    (o.setFormatter a f).formatter sink = o.formatter sink :=
  assign_of_not_mem (mt (mem_assignments_iff o f _ _).mp hother) o.formatter

/-- A sink reached from the logger has the formatter, or a clone, or a clone of that, and so
on. -/
theorem setFormatter_of_reached (hclone : ∀ g, P g → P (FormatterBase.clone g)) (hf : P f)
    (a : Addr) (o : Objects φ ε) {sink : Addr} (hsink : o.Reached (o.logger a).sinks sink) :
    P ((o.setFormatter a f).formatter sink) :=
  assign_of_mem (forall_assignments hclone o hf _) ((mem_assignments_iff o f _ _).mpr hsink)
    o.formatter

/-- What holds of the formatters holds of all loggers one after the other: a sink that has
got one keeps one. -/
theorem foldl_setFormatter_of_reached (hclone : ∀ g, P g → P (FormatterBase.clone g)) (hf : P f)
    (entries : List (Bytes × Addr)) (o : Objects φ ε) {sink : Addr}
    (h : P (o.formatter sink) ∨ ∃ entry ∈ entries, o.Reached (o.logger entry.2).sinks sink) :
    P ((entries.foldl (fun o entry => o.setFormatter entry.2 f) o).formatter sink) := by
  induction entries generalizing o with
  | nil => exact h.resolve_right fun ⟨_, hmem, _⟩ => List.not_mem_nil hmem
  | cons first rest ih =>
      apply ih
      by_cases hfirst : o.Reached (o.logger first.2).sinks sink
      · exact Or.inl (setFormatter_of_reached hclone hf first.2 o hfirst)
      · rcases h with hhas | ⟨entry, hmem, hsink⟩
        · left
          rw [setFormatter_of_not_reached first.2 f o hfirst]
          exact hhas
        · rcases List.mem_cons.mp hmem with rfl | hmem
          · exact absurd hsink hfirst
          · exact Or.inr ⟨entry, hmem, hsink⟩

end Formatters

/-! ## Names

No call renames a logger. -/

theorem name_onLogger {act : LoggerObject ε → LoggerObject ε} (hact : ∀ l, (act l).name = l.name)
    (a b : Addr) (o : Objects φ ε) : ((o.onLogger a act).logger b).name = (o.logger b).name := by
  unfold Objects.onLogger
  dsimp only
  by_cases h : b = a
  · rw [h, Function.update_self]
    exact hact _
  · rw [Function.update_of_ne h]

theorem name_eachLogger {act : Bytes → LoggerObject ε → LoggerObject ε}
    (hact : ∀ key l, (act key l).name = l.name) (entries : List (Bytes × Addr)) (b : Addr)
    (o : Objects φ ε) : ((o.eachLogger act entries).logger b).name = (o.logger b).name := by
  induction entries generalizing o with
  | nil => rfl
  | cons entry rest ih => exact (ih _).trans (name_onLogger (hact entry.1) entry.2 b o)

theorem name_levelled (levels : OrdMap Bytes Level) (globalLevel : Option Level)
    (loggerName : Bytes) (l : LoggerObject ε) :
    (levelled levels globalLevel loggerName l).name = l.name := by
  unfold levelled
  split
  · rfl
  · split <;> rfl

theorem logger_foldl_setFormatter [FormatterBase φ] (f : φ) (entries : List (Bytes × Addr))
    (o : Objects φ ε) :
    (entries.foldl (fun o entry => o.setFormatter entry.2 (FormatterBase.clone f)) o).logger =
      o.logger := by
  induction entries generalizing o with
  | nil => rfl
  | cons entry rest ih => exact ih _

/-- A call that does not touch the map, the default logger or a name. -/
structure Frame (r r' : Registry φ ε) : Prop where
  loggers : r'.loggers = r.loggers
  defaultLogger : r'.defaultLogger = r.defaultLogger
  nameOf : ∀ a, r'.nameOf a = r.nameOf a

theorem Frame.trans {r r' r'' : Registry φ ε} (h : Frame r r') (h' : Frame r' r'') :
    Frame r r'' :=
  ⟨h'.loggers.trans h.loggers, h'.defaultLogger.trans h.defaultLogger,
    fun a => (h'.nameOf a).trans (h.nameOf a)⟩

theorem frame_onLogger {f : LoggerObject ε → LoggerObject ε} (hf : ∀ l, (f l).name = l.name)
    (a : Addr) (r : Registry φ ε) : Frame r (r.onLogger a f) :=
  ⟨rfl, rfl, fun b => name_onLogger hf a b r.objects⟩

theorem frame_eachLogger {f : Bytes → LoggerObject ε → LoggerObject ε}
    (hf : ∀ key l, (f key l).name = l.name) (r : Registry φ ε) : Frame r (r.eachLogger f) :=
  ⟨rfl, rfl, fun b => name_eachLogger hf r.loggers.entries b r.objects⟩

/-- A member function that is called, and may throw. -/
theorem name_callLogger {call : LoggerObject ε → Outcome (LoggerObject ε)}
    (hcall : ∀ l, (call l).2.name = l.name) (a b : Addr) (o : Objects φ ε) :
    ((o.callLogger a call).2.logger b).name = (o.logger b).name := by
  unfold Objects.callLogger Outcome.within Objects.onLogger
  dsimp only
  by_cases h : b = a
  · rw [h, Function.update_self]
    exact hcall _
  · rw [Function.update_of_ne h]

theorem name_callEach {call : Bytes → LoggerObject ε → Outcome (LoggerObject ε)}
    (hcall : ∀ key l, (call key l).2.name = l.name) (entries : List (Bytes × Addr)) (b : Addr)
    (o : Objects φ ε) : ((o.callEach call entries).2.logger b).name = (o.logger b).name := by
  unfold Objects.callEach
  set turn := fun (entry : Bytes × Addr) (o : Objects φ ε) => o.callLogger entry.2 (call entry.1)
  induction entries generalizing o with
  | nil => rfl
  | cons entry rest ih =>
      have hfirst : ((turn entry o).2.logger b).name = (o.logger b).name :=
        name_callLogger (hcall entry.1) entry.2 b o
      cases hthrown : (turn entry o).1 with
      | none =>
          rw [Outcome.each_returned hthrown]
          exact (ih _).trans hfirst
      | some thrown =>
          rw [Outcome.each_threw hthrown]
          exact hfirst

theorem frame_enableBacktrace (nMessages : ℕ) (allocation : Bytes → Option Thrown)
    (r : Registry φ ε) : Frame r (r.enableBacktrace nMessages allocation).2 :=
  ⟨rfl, rfl, fun b => name_callEach (fun _ _ => rfl) r.loggers.entries b r.objects⟩

theorem frame_configure [FormatterBase φ] (newLogger : Addr) (allocation : Option Thrown)
    (r : Registry φ ε) : Frame r (r.configure newLogger allocation).2 := by
  have hstart : Frame r { r with
      objects := r.objects.setFormatter newLogger (FormatterBase.clone r.formatter) } :=
    ⟨rfl, rfl, fun _ => rfl⟩
  have hif {r' : Registry φ ε} {b : Prop} [Decidable b] (h : Frame r r')
      {f : LoggerObject ε → LoggerObject ε} (hf : ∀ l, (f l).name = l.name) :
      Frame r (if b then r'.onLogger newLogger f else r') := by
    split_ifs
    · exact h.trans (frame_onLogger hf newLogger r')
    · exact h
  have htrace {r' : Registry φ ε} (h : Frame r r') : Frame r (if 0 < r'.backtraceNMessages then
      (r'.objects.callLogger newLogger
        (LoggerObject.enableBacktrace r'.backtraceNMessages allocation)).within
          fun objects => { r' with objects }
      else (none, r')).2 := by
    split_ifs
    · exact h.trans ⟨rfl, rfl, fun b => name_callLogger (fun _ => rfl) newLogger b r'.objects⟩
    · exact h
  unfold configure
  apply htrace
  apply Frame.trans _ (frame_onLogger (f := .flushOn _) (fun _ => rfl) newLogger _)
  apply Frame.trans _ (frame_onLogger (f := .setLevel _) (fun _ => rfl) newLogger _)
  exact hif hstart (f := .setErrorHandler _) fun _ => rfl

/-! ## The invariant -/

/-- A logger is stored under its name, and the default logger is stored. -/
structure Consistent (r : Registry φ ε) : Prop where
  named : ∀ loggerName a, r.get loggerName = some a → r.nameOf a = loggerName
  default : ∀ a, r.defaultLogger = some a → r.get (r.nameOf a) = some a

theorem consistent_new (defaultFormatter : φ) (defaultLogger colorSink : Addr)
    (o : Objects φ ε) : (new defaultFormatter defaultLogger colorSink o).Consistent := by
  have hname : (new defaultFormatter defaultLogger colorSink o).nameOf defaultLogger = [] := by
    simp [nameOf, new, Objects.onLogger]
  constructor
  case named =>
    intro loggerName a hfound
    rw [get, new, OrdMap.lookup_insert, OrdMap.lookup_empty] at hfound
    split_ifs at hfound with hempty
    obtain rfl := Option.some.inj hfound
    rw [hname, hempty]
  case default =>
    intro a ha
    obtain rfl : defaultLogger = a := Option.some.inj ha
    rw [hname, get, new, OrdMap.lookup_insert, if_pos rfl]

namespace Consistent

variable {r r' : Registry φ ε}

theorem frame (h : r.Consistent) (hframe : Frame r r') : r'.Consistent := by
  have hget (loggerName : Bytes) : r'.get loggerName = r.get loggerName := by
    rw [get, get, hframe.loggers]
  constructor
  case named =>
    intro loggerName a hfound
    rw [hframe.nameOf]
    exact h.named loggerName a (hget loggerName ▸ hfound)
  case default =>
    intro a ha
    rw [hframe.nameOf, hget]
    exact h.default a (hframe.defaultLogger ▸ ha)

theorem registerLogger (h : r.Consistent) (newLogger : Addr) :
    (r.registerLogger newLogger).2.Consistent := by
  rw [Registry.registerLogger, throwIfExists]
  by_cases hexists : (r.loggers.lookup (r.nameOf newLogger)).isSome
  · rw [if_pos hexists]
    exact h
  · rw [if_neg hexists]
    dsimp only
    constructor
    case named =>
      intro loggerName a hfound
      rw [get, OrdMap.lookup_insert] at hfound
      split_ifs at hfound with hname
      · obtain rfl := Option.some.inj hfound
        exact hname.symm
      · exact h.named loggerName a hfound
    case default =>
      intro a ha
      -- The default logger's name was taken, so that it is not this one.
      have hother : r.nameOf a ≠ r.nameOf newLogger := by
        intro heq
        have hfound := h.default a ha
        rw [get, heq] at hfound
        exact hexists (by rw [hfound]; rfl)
      have hget := h.default a ha
      change OrdMap.lookup (r.nameOf a) _ = _
      rw [OrdMap.lookup_insert, if_neg hother]
      exact hget

theorem initializeLogger [FormatterBase φ] (h : r.Consistent) (newLogger : Addr)
    (allocation : Option Thrown) : (r.initializeLogger newLogger allocation).2.Consistent := by
  have hconfigured := h.frame (frame_configure newLogger allocation r)
  rw [Registry.initializeLogger]
  cases hthrown : (r.configure newLogger allocation).1 with
  | none =>
      rw [Outcome.andThen_returned hthrown]
      split_ifs
      · exact hconfigured.registerLogger newLogger
      · exact hconfigured
  | some thrown =>
      rw [Outcome.andThen_threw hthrown]
      exact hconfigured

theorem withoutDefault (h : r.Consistent) {loggerName : Bytes} {a : Addr}
    (hfound : r.withoutDefault.lookup loggerName = some a) : r.nameOf a = loggerName := by
  unfold Registry.withoutDefault at hfound
  split at hfound
  · rw [OrdMap.lookup_erase] at hfound
    split_ifs at hfound
    exact h.named loggerName a hfound
  · exact h.named loggerName a hfound

theorem setDefaultLogger (h : r.Consistent) (newDefaultLogger : Option Addr) :
    (r.setDefaultLogger newDefaultLogger).Consistent := by
  cases newDefaultLogger with
  | none =>
      constructor
      case named =>
        intro loggerName a hfound
        exact h.withoutDefault hfound
      case default =>
        intro a ha
        cases ha
  | some newDefault =>
      constructor
      case named =>
        intro loggerName a hfound
        change OrdMap.lookup loggerName (r.withoutDefault.insert _ _) = some a at hfound
        rw [OrdMap.lookup_insert] at hfound
        split_ifs at hfound with hname
        · obtain rfl := Option.some.inj hfound
          exact hname.symm
        · exact h.withoutDefault hfound
      case default =>
        intro a ha
        obtain rfl := Option.some.inj ha
        change OrdMap.lookup (r.nameOf newDefault) (r.withoutDefault.insert _ _) = _
        rw [OrdMap.lookup_insert]
        exact if_pos rfl

theorem drop (h : r.Consistent) (loggerName : Bytes) : (r.drop loggerName).Consistent := by
  constructor
  case named =>
    intro other a hfound
    rw [get, Registry.drop, OrdMap.lookup_erase] at hfound
    split_ifs at hfound
    exact h.named other a hfound
  case default =>
    intro a ha
    obtain ⟨hdefault, hne⟩ := Option.filter_eq_some_iff.mp ha
    have hother : r.nameOf a ≠ loggerName := by simpa using hne
    change OrdMap.lookup (r.nameOf a) (r.loggers.erase loggerName) = _
    rw [OrdMap.lookup_erase, if_neg hother]
    exact h.default a hdefault

theorem dropAll (r : Registry φ ε) : r.dropAll.Consistent := by
  constructor
  case named =>
    intro loggerName a hfound
    cases hfound
  case default =>
    intro a ha
    cases ha

/-- Every call keeps the registry consistent. -/
theorem step [FormatterBase φ] (h : r.Consistent) (c : RegistryCall φ ε) :
    (r.step c).Consistent := by
  cases c with
  | registerLogger newLogger => exact h.registerLogger newLogger
  | initializeLogger newLogger allocation => exact h.initializeLogger newLogger allocation
  | setDefaultLogger newDefaultLogger => exact h.setDefaultLogger newDefaultLogger
  | setTp tp => exact h.frame ⟨rfl, rfl, fun _ => rfl⟩
  | setFormatter f =>
      have hnames := logger_foldl_setFormatter f r.loggers.entries r.objects
      exact h.frame ⟨rfl, rfl, fun a => congrArg (fun l => (l a).name) hnames⟩
  | enableBacktrace nMessages allocation =>
      exact h.frame (frame_enableBacktrace nMessages allocation r)
  | disableBacktrace =>
      have hframe := frame_eachLogger (f := fun _ => .disableBacktrace) (fun _ _ => rfl)
        { r with backtraceNMessages := 0 }
      exact h.frame ⟨hframe.loggers, hframe.defaultLogger, hframe.nameOf⟩
  | setLevel logLevel =>
      have hframe := frame_eachLogger (f := fun _ => .setLevel logLevel) (fun _ _ => rfl) r
      exact h.frame ⟨hframe.loggers, hframe.defaultLogger, hframe.nameOf⟩
  | flushOn logLevel =>
      have hframe := frame_eachLogger (f := fun _ => .flushOn logLevel) (fun _ _ => rfl) r
      exact h.frame ⟨hframe.loggers, hframe.defaultLogger, hframe.nameOf⟩
  | flushEvery interval => exact h.frame ⟨rfl, rfl, fun _ => rfl⟩
  | setErrorHandler handler =>
      have hframe := frame_eachLogger (f := fun _ => .setErrorHandler handler)
        (fun _ _ => rfl) r
      exact h.frame ⟨hframe.loggers, hframe.defaultLogger, hframe.nameOf⟩
  | drop loggerName => exact h.drop loggerName
  | dropAll => exact dropAll r
  | shutdown => exact (dropAll { r with periodicFlusher := none }).frame ⟨rfl, rfl, fun _ => rfl⟩
  | setAutomaticRegistration automaticRegistration => exact h.frame ⟨rfl, rfl, fun _ => rfl⟩
  | setLevels levels globalLevel =>
      have hframe := frame_eachLogger (name_levelled levels globalLevel)
        { r with logLevels := levels, globalLogLevel := globalLevel.getD r.globalLogLevel }
      exact h.frame ⟨hframe.loggers, hframe.defaultLogger, hframe.nameOf⟩

end Consistent

/-- A call that throws leaves the map and the default logger as they were. -/
theorem call_threw [FormatterBase φ] {r : Registry φ ε} {c : RegistryCall φ ε}
    (h : (r.call c).1 ≠ none) :
    (r.step c).loggers = r.loggers ∧ (r.step c).defaultLogger = r.defaultLogger := by
  have hregister {r : Registry φ ε} {newLogger : Addr}
      (h : (r.registerLogger newLogger).1 ≠ none) : (r.registerLogger newLogger).2 = r := by
    rw [registerLogger] at h ⊢
    split at h
    · rfl
    · exact absurd rfl h
  cases c with
  | registerLogger newLogger =>
      have hsame := hregister (show (r.registerLogger newLogger).1 ≠ none from h)
      rw [step, call, hsame]
      exact ⟨rfl, rfl⟩
  | initializeLogger newLogger allocation =>
      have hframe := frame_configure newLogger allocation r
      rw [step, call]
      rw [call, initializeLogger] at h
      rw [initializeLogger]
      cases hthrown : (r.configure newLogger allocation).1 with
      | some thrown =>
          rw [Outcome.andThen_threw hthrown]
          exact ⟨hframe.loggers, hframe.defaultLogger⟩
      | none =>
          rw [Outcome.andThen_returned hthrown] at h ⊢
          split_ifs at h ⊢
          · rw [hregister h]
            exact ⟨hframe.loggers, hframe.defaultLogger⟩
          · exact ⟨hframe.loggers, hframe.defaultLogger⟩
  | enableBacktrace nMessages allocation =>
      have hframe := frame_enableBacktrace nMessages allocation r
      exact ⟨hframe.loggers, hframe.defaultLogger⟩
  | _ => exact absurd rfl h

/-- Whatever is called, from the constructed registry on: loggers are stored under
their names, the default logger is found under its name, a registration that throws
changes neither the map nor the default logger, and a dropped name is gone from both. -/
theorem registry_invariant [FormatterBase φ] (defaultFormatter : φ) (defaultLogger colorSink : Addr)
    (o : Objects φ ε) (calls : List (RegistryCall φ ε)) :
    let start := new defaultFormatter defaultLogger colorSink o
    (Runs.run step start calls).Consistent ∧
    ∀ p ∈ Runs.trace step start calls, p.1.Consistent ∧
      ((p.1.call p.2).1 ≠ none →
        (p.1.step p.2).loggers = p.1.loggers ∧ (p.1.step p.2).defaultLogger = p.1.defaultLogger) ∧
      ∀ loggerName, p.2 = .drop loggerName →
        (p.1.step p.2).get loggerName = none ∧
        ∀ a, (p.1.step p.2).defaultLogger = some a → (p.1.step p.2).nameOf a ≠ loggerName := by
  intro start
  obtain ⟨hrun, htrace⟩ := Runs.invariant_of_steps (motive := Consistent) (C := fun _ _ => True)
    (fun _ c hr _ => hr.step c) (consistent_new defaultFormatter defaultLogger colorSink o) calls
    fun _ _ => trivial
  refine ⟨hrun, ?_⟩
  rintro ⟨r, c⟩ hp
  refine ⟨htrace (r, c) hp, call_threw, ?_⟩
  rintro loggerName rfl
  have hgone : (r.drop loggerName).get loggerName = none := by
    rw [get, drop, OrdMap.lookup_erase, if_pos rfl]
  refine ⟨hgone, ?_⟩
  -- A default logger of that name would be in the map.
  intro a ha heq
  have hfound := ((htrace (r, .drop loggerName) hp).drop loggerName).default a ha
  have hname : (r.drop loggerName).nameOf a = loggerName := heq
  rw [hname, hgone] at hfound
  cases hfound

/-- A logger under the name of the default one becomes the default, and is dropped. -/
example :
    let o : Objects Unit Unit :=
      { logger := fun _ => { name := ascii "x", sinks := [] }, formatter := fun _ => () }
    letI : FormatterBase Unit := ⟨id⟩
    let r := Runs.run step (new () 0 1 o)
      [.registerLogger 2, .setDefaultLogger (some 3), .registerLogger 2]
    r.get (ascii "x") = some 3 ∧ r.defaultLogger = some 3 ∧ r.get [] = none ∧
      (r.step (.drop (ascii "x"))).defaultLogger = none := by decide

end Registry

end Structlog
