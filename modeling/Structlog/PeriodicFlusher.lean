import Structlog.Lib.ListSet
import Structlog.Lib.Mutexes
import Structlog.Registry

/-!
# The periodic flusher

The threads that call the registry and the threads of its `periodic_worker`s, as one
machine.  A step is what a thread does up to the next point at which it may have to wait
or at which others can see what it has done: `FlusherAct` lists them, and
`FlusherSystem.act` is `none` where the thread has to wait.

`flush_all` holds `logger_map_mutex_` while it goes through the map, a worker holds its
own `mutex_` as well, and whoever replaces `periodic_flusher_` holds `flusher_mutex_`
until the old worker's thread has been joined.  `wait_for` gives the worker's `mutex_`
back while it waits.  It ends because it is notified, because time is up, or for no
reason at all, and it then looks at `active_` again.

`sections` and `flushed` are histories: the critical sections of the registry in the
order in which they were entered, and the loggers that were flushed.
-/

namespace Structlog

open Lib

variable {φ ε : Type*}

/-- Where the thread of a worker is. -/
inductive WorkerStage
  /-- The interval was zero. -/
  | noThread
  | locking
  /-- In `wait_for`. -/
  | waiting (notified : Bool)
  | callback
  /-- In `flush_all`, at the `next`-th logger. -/
  | flushing (next : ℕ)
  | exited
  deriving DecidableEq, Repr

structure PeriodicWorker where
  active : Bool
  /-- Its own thread holds `mutex_`. -/
  locked : Bool
  stage : WorkerStage
  deriving DecidableEq, Repr

/-- What a thread calls. -/
inductive ThreadCall (φ ε : Type*)
  | registry (c : RegistryCall φ ε)
  | flushAll

/-- Where a thread is in a call.  `old` is the worker in `~periodic_worker`, and `closing`
says that the call is `shutdown`. -/
inductive CallStage
  | between
  | flushing (next : ℕ)
  | deactivating (old : ℕ) (closing : Bool)
  | notifying (old : ℕ) (closing : Bool)
  | joining (old : ℕ) (closing : Bool)
  | dropping
  | resettingTp
  deriving DecidableEq, Repr

/-- A thread and what it is still going to call. -/
structure ApiThread (φ ε : Type*) where
  stage : CallStage
  script : List (ThreadCall φ ε)

/-- Who holds `logger_map_mutex_`. -/
inductive Holder
  | thread (t : ℕ)
  | worker (i : ℕ)
  deriving DecidableEq, Repr

/-- A critical section of the registry. -/
inductive RegistrySection (φ ε : Type*)
  | call (c : RegistryCall φ ε)
  /-- The first part of `shutdown`. -/
  | resetFlusher
  | flushAll

structure FlusherSystem (φ ε : Type*) where
  registry : Registry φ ε
  /-- All workers that have been constructed. -/
  workers : List PeriodicWorker
  periodicFlusher : Option ℕ
  threads : List (ApiThread φ ε)
  flusherMutex : Option ℕ
  loggerMapMutex : Option Holder
  sections : List (Holder × RegistrySection φ ε)
  flushed : List (Holder × Addr)

inductive FlusherAct
  | thread (t : ℕ)
  | worker (i : ℕ)
  | timeout (i : ℕ)
  /-- A wakeup without a notification. -/
  | spurious (i : ℕ)
  deriving DecidableEq, Repr

/-- Only `flush_every` and `shutdown` touch the flusher. -/
theorem Registry.periodicFlusher_step [FormatterBase φ] {r : Registry φ ε} {c : RegistryCall φ ε}
    (hflushEvery : ∀ interval, c ≠ .flushEvery interval) (hshutdown : c ≠ .shutdown) :
    (r.step c).periodicFlusher = r.periodicFlusher := by
  have hregister (r : Registry φ ε) (newLogger : Addr) :
      (r.registerLogger newLogger).2.periodicFlusher = r.periodicFlusher := by
    rw [registerLogger]
    split <;> rfl
  have hconfigure (newLogger : Addr) (allocation : Option Thrown) :
      (r.configure newLogger allocation).2.periodicFlusher = r.periodicFlusher := by
    rw [configure]
    split_ifs <;> rfl
  cases c with
  | registerLogger newLogger => exact hregister r newLogger
  | initializeLogger newLogger allocation =>
      rw [step, call, initializeLogger]
      cases hthrown : (r.configure newLogger allocation).1 with
      | some thrown =>
          rw [Outcome.andThen_threw hthrown]
          exact hconfigure newLogger allocation
      | none =>
          rw [Outcome.andThen_returned hthrown]
          split_ifs
          · exact (hregister _ newLogger).trans (hconfigure newLogger allocation)
          · exact hconfigure newLogger allocation
  | setDefaultLogger newDefaultLogger => cases newDefaultLogger <;> rfl
  | flushEvery interval => exact absurd rfl (hflushEvery interval)
  | shutdown => exact absurd rfl hshutdown
  | _ => rfl

/-- Neither the clock nor a spurious wakeup. -/
def FlusherAct.quiet : FlusherAct → Bool
  | .thread _ | .worker _ => true
  | .timeout _ | .spurious _ => false

namespace PeriodicWorker

/-- The constructor. -/
def new (interval : ℕ) : PeriodicWorker :=
  if 0 < interval then ⟨true, false, .locking⟩ else ⟨false, false, .noThread⟩

def joinable (w : PeriodicWorker) : Bool := w.stage != .noThread

/-- The thread can still do something. -/
def Running (w : PeriodicWorker) : Prop := w.stage ≠ .noThread ∧ w.stage ≠ .exited

/-- `wait_for` looks at `active_`: the thread leaves, or waits on. -/
def recheck (w : PeriodicWorker) : PeriodicWorker :=
  { w with stage := if w.active then .waiting false else .exited }

/-- `wait_for` is over because time is up. -/
def timeUp (w : PeriodicWorker) : PeriodicWorker :=
  if w.active then { w with locked := true, stage := .callback } else { w with stage := .exited }

/-- `notify_one`, which only a thread that waits notices. -/
def notify (w : PeriodicWorker) : PeriodicWorker :=
  match w.stage with
  | .waiting _ => { w with stage := .waiting true }
  | _ => w

end PeriodicWorker

namespace ThreadCall

/-- The critical sections of a call. -/
def sections : ThreadCall φ ε → List (RegistrySection φ ε)
  | .registry .shutdown => [.resetFlusher, .call .dropAll, .call (.setTp none)]
  | .registry c => [.call c]
  | .flushAll => [.flushAll]

end ThreadCall

/-- What follows `flusher_mutex_` in the call. -/
def CallStage.afterFlusher (closing : Bool) : CallStage := if closing then .dropping else .between

namespace FlusherSystem

variable [FormatterBase φ]

def initial (registry : Registry φ ε) (scripts : List (List (ThreadCall φ ε))) :
    FlusherSystem φ ε where
  registry := registry
  workers := []
  periodicFlusher := none
  threads := scripts.map (ApiThread.mk .between)
  flusherMutex := none
  loggerMapMutex := none
  sections := []
  flushed := []

/-- The loggers in the map. -/
def registered (s : FlusherSystem φ ε) : List Addr := s.registry.loggers.entries.map Prod.snd

def setWorker (s : FlusherSystem φ ε) (i : ℕ) (w : PeriodicWorker) : FlusherSystem φ ε :=
  { s with workers := s.workers.set i w }

def setThread (s : FlusherSystem φ ε) (t : ℕ) (stage : CallStage)
    (script : List (ThreadCall φ ε)) : FlusherSystem φ ε :=
  { s with threads := s.threads.set t ⟨stage, script⟩ }

/-- A call of the registry that is one critical section. -/
def applyCall (s : FlusherSystem φ ε) (t : ℕ) (c : RegistryCall φ ε) : FlusherSystem φ ε :=
  { s with
    registry := s.registry.step c
    sections := s.sections ++ [(.thread t, .call c)] }

/-- `shutdown` sets `periodic_flusher_` to null. -/
def applyReset (s : FlusherSystem φ ε) (t : ℕ) : FlusherSystem φ ε :=
  { s with
    registry := { s.registry with periodicFlusher := none }
    sections := s.sections ++ [(.thread t, .resetFlusher)] }

/-- A `periodic_worker` is constructed. -/
def construct (s : FlusherSystem φ ε) (interval : ℕ) : FlusherSystem φ ε :=
  { s with workers := s.workers ++ [.new interval] }

/-- `flush_all` starts. -/
def enterFlushAll (s : FlusherSystem φ ε) (h : Holder) : FlusherSystem φ ε :=
  { s with loggerMapMutex := some h, sections := s.sections ++ [(h, .flushAll)] }

def flush (s : FlusherSystem φ ε) (h : Holder) (a : Addr) : FlusherSystem φ ε :=
  { s with flushed := s.flushed ++ [(h, a)] }

/-- The worker that `periodic_flusher_` points to, if there is a thread to be joined. -/
def joinableFlusher (s : FlusherSystem φ ε) : Option ℕ :=
  s.periodicFlusher.filter fun i => (s.workers[i]?).any PeriodicWorker.joinable

/-- `periodic_flusher_` gets a new value, and the old worker is destroyed. -/
def replaceFlusher (s : FlusherSystem φ ε) (t : ℕ) (script : List (ThreadCall φ ε))
    (replacement : Option ℕ) (closing : Bool) : FlusherSystem φ ε :=
  match s.joinableFlusher with
  | some old =>
      { s with periodicFlusher := replacement, flusherMutex := some t }.setThread t
        (.deactivating old closing) script
  | none =>
      { s with periodicFlusher := replacement }.setThread t (.afterFlusher closing) script

def startCall (s : FlusherSystem φ ε) (t : ℕ) (script : List (ThreadCall φ ε)) :
    ThreadCall φ ε → Option (FlusherSystem φ ε)
  | .registry (.flushEvery interval) =>
      if s.flusherMutex = none then
        -- the new worker's thread starts before the old worker is destroyed
        some (((s.applyCall t (.flushEvery interval)).construct interval).replaceFlusher t script
          (some s.workers.length) false)
      else none
  | .registry .shutdown =>
      if s.flusherMutex = none then
        some ((s.applyReset t).replaceFlusher t script none true)
      else none
  -- `tp_mutex_` is held by nobody from one step to the next
  | .registry (.setTp tp) => some ((s.applyCall t (.setTp tp)).setThread t .between script)
  | .registry c =>
      if s.loggerMapMutex = none then some ((s.applyCall t c).setThread t .between script)
      else none
  | .flushAll =>
      if s.loggerMapMutex = none then
        some ((s.enterFlushAll (.thread t)).setThread t (.flushing 0) script)
      else none

/-- The next step of a thread that calls the registry. -/
def threadStep (s : FlusherSystem φ ε) (t : ℕ) : Option (FlusherSystem φ ε) :=
  match s.threads[t]? with
  | some ⟨.between, c :: script⟩ => s.startCall t script c
  | some ⟨.flushing next, script⟩ =>
      match s.registered[next]? with
      | some a => some ((s.flush (.thread t) a).setThread t (.flushing (next + 1)) script)
      | none => some ({ s with loggerMapMutex := none }.setThread t .between script)
  | some ⟨.deactivating old closing, script⟩ =>
      match s.workers[old]? with
      | some w =>
          -- the destructor waits for the mutex, and so for a callback under way
          if w.locked then none
          else some ((s.setWorker old { w with active := false }).setThread t
            (.notifying old closing) script)
      | none => none
  | some ⟨.notifying old closing, script⟩ =>
      match s.workers[old]? with
      | some w => some ((s.setWorker old w.notify).setThread t (.joining old closing) script)
      | none => none
  | some ⟨.joining old closing, script⟩ =>
      match s.workers[old]? with
      | some w =>
          if w.stage = .exited then
            some ({ s with flusherMutex := none }.setThread t (.afterFlusher closing) script)
          else none
      | none => none
  | some ⟨.dropping, script⟩ =>
      if s.loggerMapMutex = none then
        some ((s.applyCall t .dropAll).setThread t .resettingTp script)
      else none
  | some ⟨.resettingTp, script⟩ =>
      some ((s.applyCall t (.setTp none)).setThread t .between script)
  | _ => none

/-- The next step of a worker's thread that nobody has to wake. -/
def workerStep (s : FlusherSystem φ ε) (i : ℕ) : Option (FlusherSystem φ ε) :=
  match s.workers[i]? with
  | some w =>
      match w.stage with
      -- `wait_for` looks at `active_` before it waits and when it is notified
      | .locking | .waiting true => if w.locked then none else some (s.setWorker i w.recheck)
      | .callback =>
          if s.loggerMapMutex = none then
            some ((s.enterFlushAll (.worker i)).setWorker i { w with stage := .flushing 0 })
          else none
      | .flushing next =>
          match s.registered[next]? with
          | some a =>
              some ((s.flush (.worker i) a).setWorker i { w with stage := .flushing (next + 1) })
          | none =>
              some ({ s with loggerMapMutex := none }.setWorker i
                { w with locked := false, stage := .locking })
      | _ => none
  | none => none

/-- A worker's `wait_for` ends, and the thread gets the mutex again. -/
def wake (s : FlusherSystem φ ε) (i : ℕ) (goOn : PeriodicWorker → PeriodicWorker) :
    Option (FlusherSystem φ ε) :=
  match s.workers[i]? with
  | some ⟨active, false, .waiting notified⟩ =>
      some (s.setWorker i (goOn ⟨active, false, .waiting notified⟩))
  | _ => none

def act (s : FlusherSystem φ ε) : FlusherAct → Option (FlusherSystem φ ε)
  | .thread t => s.threadStep t
  | .worker i => s.workerStep i
  | .timeout i => s.wake i .timeUp
  | .spurious i => s.wake i .recheck

/-! ## What a step can do -/

/-- A step of a thread that is one call of the registry. -/
inductive Single : ApiThread φ ε → RegistryCall φ ε → ApiThread φ ε → Prop
  | call {c : RegistryCall φ ε} {script : List (ThreadCall φ ε)}
      (hsections : (ThreadCall.registry c).sections = [.call c]) :
      Single ⟨.between, .registry c :: script⟩ c ⟨.between, script⟩
  | dropAll {script : List (ThreadCall φ ε)} :
      Single ⟨.dropping, script⟩ .dropAll ⟨.resettingTp, script⟩
  | resetTp {script : List (ThreadCall φ ε)} :
      Single ⟨.resettingTp, script⟩ (.setTp none) ⟨.between, script⟩

/-- The steps, with the state they lead to. -/
inductive Step (s : FlusherSystem φ ε) : FlusherAct → FlusherSystem φ ε → Prop
  | recheck {move : FlusherAct} {i : ℕ} {w : PeriodicWorker} (hw : s.workers[i]? = some w)
      (hstage : w.stage = .locking ∨ ∃ notified, w.stage = .waiting notified)
      (hlocked : w.locked = false) (hnotified : move.quiet = true → w.stage ≠ .waiting false) :
      Step s move (s.setWorker i w.recheck)
  | timeUp {i : ℕ} {w : PeriodicWorker} (hw : s.workers[i]? = some w)
      (hstage : ∃ notified, w.stage = .waiting notified) (hlocked : w.locked = false) :
      Step s (.timeout i) (s.setWorker i w.timeUp)
  | enterWorker {i : ℕ} {w : PeriodicWorker} (hw : s.workers[i]? = some w)
      (hstage : w.stage = .callback) (hfree : s.loggerMapMutex = none) :
      Step s (.worker i) ((s.enterFlushAll (.worker i)).setWorker i { w with stage := .flushing 0 })
  | flushWorker {i next : ℕ} {w : PeriodicWorker} {a : Addr} (hw : s.workers[i]? = some w)
      (hstage : w.stage = .flushing next) (hnext : s.registered[next]? = some a) :
      Step s (.worker i)
        ((s.flush (.worker i) a).setWorker i { w with stage := .flushing (next + 1) })
  | leaveWorker {i next : ℕ} {w : PeriodicWorker} (hw : s.workers[i]? = some w)
      (hstage : w.stage = .flushing next) (hnext : s.registered[next]? = none) :
      Step s (.worker i) ({ s with loggerMapMutex := none }.setWorker i
        { w with locked := false, stage := .locking })
  | enterThread {t : ℕ} {script : List (ThreadCall φ ε)}
      (ht : s.threads[t]? = some ⟨.between, .flushAll :: script⟩)
      (hfree : s.loggerMapMutex = none) :
      Step s (.thread t) ((s.enterFlushAll (.thread t)).setThread t (.flushing 0) script)
  | flushThread {t next : ℕ} {script : List (ThreadCall φ ε)} {a : Addr}
      (ht : s.threads[t]? = some ⟨.flushing next, script⟩)
      (hnext : s.registered[next]? = some a) :
      Step s (.thread t) ((s.flush (.thread t) a).setThread t (.flushing (next + 1)) script)
  | leaveThread {t next : ℕ} {script : List (ThreadCall φ ε)}
      (ht : s.threads[t]? = some ⟨.flushing next, script⟩) (hnext : s.registered[next]? = none) :
      Step s (.thread t) ({ s with loggerMapMutex := none }.setThread t .between script)
  | flushEvery {t interval : ℕ} {script : List (ThreadCall φ ε)}
      (ht : s.threads[t]? = some ⟨.between, .registry (.flushEvery interval) :: script⟩)
      (hfree : s.flusherMutex = none) :
      Step s (.thread t) (((s.applyCall t (.flushEvery interval)).construct interval).replaceFlusher
        t script (some s.workers.length) false)
  | shutdown {t : ℕ} {script : List (ThreadCall φ ε)}
      (ht : s.threads[t]? = some ⟨.between, .registry .shutdown :: script⟩)
      (hfree : s.flusherMutex = none) :
      Step s (.thread t) ((s.applyReset t).replaceFlusher t script none true)
  | deactivate {t old : ℕ} {closing : Bool} {script : List (ThreadCall φ ε)} {w : PeriodicWorker}
      (ht : s.threads[t]? = some ⟨.deactivating old closing, script⟩)
      (hw : s.workers[old]? = some w) (hlocked : w.locked = false) :
      Step s (.thread t) ((s.setWorker old { w with active := false }).setThread t
        (.notifying old closing) script)
  | notify {t old : ℕ} {closing : Bool} {script : List (ThreadCall φ ε)} {w : PeriodicWorker}
      (ht : s.threads[t]? = some ⟨.notifying old closing, script⟩)
      (hw : s.workers[old]? = some w) :
      Step s (.thread t) ((s.setWorker old w.notify).setThread t (.joining old closing) script)
  | join {t old : ℕ} {closing : Bool} {script : List (ThreadCall φ ε)} {w : PeriodicWorker}
      (ht : s.threads[t]? = some ⟨.joining old closing, script⟩)
      (hw : s.workers[old]? = some w) (hexited : w.stage = .exited) :
      Step s (.thread t)
        ({ s with flusherMutex := none }.setThread t (.afterFlusher closing) script)
  | single {t : ℕ} {before : ApiThread φ ε} {c : RegistryCall φ ε} {stage : CallStage}
      {script : List (ThreadCall φ ε)} (ht : s.threads[t]? = some before)
      (hsingle : Single before c ⟨stage, script⟩)
      (hmap : s.loggerMapMutex = none ∨ (s.registry.step c).loggers = s.registry.loggers)
      (hflusher : (s.registry.step c).periodicFlusher = s.registry.periodicFlusher) :
      Step s (.thread t) ((s.applyCall t c).setThread t stage script)

theorem step_of_startCall {s s' : FlusherSystem φ ε} {t : ℕ} {c : ThreadCall φ ε}
    {script : List (ThreadCall φ ε)} (ht : s.threads[t]? = some ⟨.between, c :: script⟩)
    (h : s.startCall t script c = some s') : s.Step (.thread t) s' := by
  cases c with
  | flushAll =>
      rw [startCall] at h
      split_ifs at h with hfree
      obtain rfl := Option.some.inj h
      exact .enterThread ht hfree
  | registry c =>
      cases c with
      | flushEvery interval =>
          rw [startCall] at h
          split_ifs at h with hfree
          obtain rfl := Option.some.inj h
          exact .flushEvery ht hfree
      | shutdown =>
          rw [startCall] at h
          split_ifs at h with hfree
          obtain rfl := Option.some.inj h
          exact .shutdown ht hfree
      | setTp tp =>
          obtain rfl := Option.some.inj h
          exact .single ht (.call rfl) (.inr rfl) rfl
      | _ =>
          rw [startCall] at h
          · split_ifs at h with hfree
            obtain rfl := Option.some.inj h
            exact .single ht (.call rfl) (.inl hfree) (Registry.periodicFlusher_step (by simp)
              (by simp))
          all_goals
            intros
            contradiction

theorem step_of_threadStep {s s' : FlusherSystem φ ε} {t : ℕ} (h : s.threadStep t = some s') :
    s.Step (.thread t) s' := by
  rw [threadStep] at h
  split at h
  case h_1 ht => exact step_of_startCall ht h
  case h_2 ht =>
    split at h
    · next hnext =>
        obtain rfl := Option.some.inj h
        exact .flushThread ht hnext
    · next hnext =>
        obtain rfl := Option.some.inj h
        exact .leaveThread ht hnext
  case h_3 ht =>
    split at h
    · next hw =>
        split_ifs at h with hlocked
        obtain rfl := Option.some.inj h
        exact .deactivate ht hw (Bool.eq_false_iff.mpr hlocked)
    · cases h
  case h_4 ht =>
    split at h
    · next hw =>
        obtain rfl := Option.some.inj h
        exact .notify ht hw
    · cases h
  case h_5 ht =>
    split at h
    · next hw =>
        split_ifs at h with hexited
        obtain rfl := Option.some.inj h
        exact .join ht hw hexited
    · cases h
  case h_6 ht =>
    split_ifs at h with hfree
    obtain rfl := Option.some.inj h
    exact .single ht .dropAll (.inl hfree) rfl
  case h_7 ht =>
    obtain rfl := Option.some.inj h
    exact .single ht .resetTp (.inr rfl) rfl
  case h_8 => cases h

theorem step_of_workerStep {s s' : FlusherSystem φ ε} {i : ℕ} (h : s.workerStep i = some s') :
    s.Step (.worker i) s' := by
  rw [workerStep] at h
  split at h
  case h_2 => cases h
  case h_1 w hw =>
    split at h
    case h_1 hstage =>
      split_ifs at h with hlocked
      obtain rfl := Option.some.inj h
      exact .recheck hw (.inl hstage) (Bool.eq_false_iff.mpr hlocked) fun _ => by simp [hstage]
    case h_2 hstage =>
      split_ifs at h with hlocked
      obtain rfl := Option.some.inj h
      exact .recheck hw (.inr ⟨true, hstage⟩) (Bool.eq_false_iff.mpr hlocked) fun _ => by
        simp [hstage]
    case h_3 hstage =>
      split_ifs at h with hfree
      obtain rfl := Option.some.inj h
      exact .enterWorker hw hstage hfree
    case h_4 hstage =>
      split at h
      · next hnext =>
          obtain rfl := Option.some.inj h
          exact .flushWorker hw hstage hnext
      · next hnext =>
          obtain rfl := Option.some.inj h
          exact .leaveWorker hw hstage hnext
    case h_5 => cases h

theorem step_of_act {s s' : FlusherSystem φ ε} {move : FlusherAct} (h : s.act move = some s') :
    s.Step move s' := by
  have hwake {i : ℕ} {goOn : PeriodicWorker → PeriodicWorker} (h : s.wake i goOn = some s') :
      ∃ w, s.workers[i]? = some w ∧ (∃ notified, w.stage = .waiting notified) ∧
        w.locked = false ∧ s' = s.setWorker i (goOn w) := by
    rw [wake] at h
    split at h
    · next active notified hw =>
        obtain rfl := Option.some.inj h
        exact ⟨_, hw, ⟨notified, rfl⟩, rfl, rfl⟩
    · cases h
  cases move with
  | thread t => exact step_of_threadStep h
  | worker i => exact step_of_workerStep h
  | timeout i =>
      obtain ⟨w, hw, hstage, hlocked, rfl⟩ := hwake h
      exact .timeUp hw hstage hlocked
  | spurious i =>
      obtain ⟨w, hw, hstage, hlocked, rfl⟩ := hwake h
      exact .recheck hw (.inr hstage) hlocked (absurd · Bool.false_ne_true)

/-! ## Who is where -/

end FlusherSystem

def WorkerStage.flushIndex : WorkerStage → Option ℕ
  | .flushing next => some next
  | _ => none

def CallStage.flushIndex : CallStage → Option ℕ
  | .flushing next => some next
  | _ => none

/-- The worker that the thread destroys. -/
def CallStage.old : CallStage → Option ℕ
  | .deactivating old _ | .notifying old _ | .joining old _ => some old
  | _ => none

/-- The thread is in the callback, for which it keeps `mutex_`. -/
def PeriodicWorker.InCallback (w : PeriodicWorker) : Prop :=
  w.stage = .callback ∨ w.stage.flushIndex.isSome = true

namespace FlusherSystem

/-- How far the holder's `flush_all` is. -/
def flushIndex (s : FlusherSystem φ ε) : Holder → Option ℕ
  | .thread t => (s.threads[t]?).bind fun th => th.stage.flushIndex
  | .worker i => (s.workers[i]?).bind fun w => w.stage.flushIndex

/-- The worker that the thread destroys. -/
def destroying (s : FlusherSystem φ ε) (t : ℕ) : Option ℕ :=
  (s.threads[t]?).bind fun th => th.stage.old

section Moves

variable {s : FlusherSystem φ ε} {i t : ℕ} {w : PeriodicWorker} {th : ApiThread φ ε}

theorem flushIndex_worker (hw : s.workers[i]? = some w) :
    s.flushIndex (.worker i) = w.stage.flushIndex := by
  rw [flushIndex, hw, Option.bind_some]

theorem flushIndex_thread (ht : s.threads[t]? = some th) :
    s.flushIndex (.thread t) = th.stage.flushIndex := by
  rw [flushIndex, ht, Option.bind_some]

theorem destroying_thread (ht : s.threads[t]? = some th) : s.destroying t = th.stage.old := by
  rw [destroying, ht, Option.bind_some]

theorem workers_setWorker (hw : s.workers[i]? = some w) (w' : PeriodicWorker) (j : ℕ) :
    (s.setWorker i w').workers[j]? = if j = i then some w' else s.workers[j]? :=
  getElem?_set_of_some hw w' j

theorem threads_setThread (ht : s.threads[t]? = some th) (stage : CallStage)
    (script : List (ThreadCall φ ε)) (u : ℕ) :
    (s.setThread t stage script).threads[u]? =
      if u = t then some ⟨stage, script⟩ else s.threads[u]? :=
  getElem?_set_of_some ht _ u

theorem flushIndex_setWorker (hw : s.workers[i]? = some w) (w' : PeriodicWorker) (h : Holder) :
    (s.setWorker i w').flushIndex h =
      if h = .worker i then w'.stage.flushIndex else s.flushIndex h := by
  cases h with
  | thread t => rfl
  | worker j =>
      rw [flushIndex, workers_setWorker hw]
      by_cases hj : j = i
      · rw [if_pos hj, if_pos (congrArg Holder.worker hj), Option.bind_some]
      · rw [if_neg hj, if_neg fun heq => hj (Holder.worker.inj heq), flushIndex]

theorem flushIndex_setThread (ht : s.threads[t]? = some th) (stage : CallStage)
    (script : List (ThreadCall φ ε)) (h : Holder) :
    (s.setThread t stage script).flushIndex h =
      if h = .thread t then stage.flushIndex else s.flushIndex h := by
  cases h with
  | worker i => rfl
  | thread u =>
      rw [flushIndex, threads_setThread ht]
      by_cases hu : u = t
      · rw [if_pos hu, if_pos (congrArg Holder.thread hu), Option.bind_some]
      · rw [if_neg hu, if_neg fun heq => hu (Holder.thread.inj heq), flushIndex]

theorem destroying_setThread (ht : s.threads[t]? = some th) (stage : CallStage)
    (script : List (ThreadCall φ ε)) (u : ℕ) :
    (s.setThread t stage script).destroying u = if u = t then stage.old else s.destroying u := by
  rw [destroying, threads_setThread ht]
  by_cases hu : u = t
  · rw [if_pos hu, if_pos hu, Option.bind_some]
  · rw [if_neg hu, if_neg hu, destroying]

theorem flushIndex_setWorker_same (hw : s.workers[i]? = some w) {w' : PeriodicWorker}
    (hsame : w'.stage.flushIndex = w.stage.flushIndex) (h : Holder) :
    (s.setWorker i w').flushIndex h = s.flushIndex h := by
  rw [flushIndex_setWorker hw]
  split_ifs with hholder
  · rw [hsame, hholder, flushIndex_worker hw]
  · rfl

theorem flushIndex_setThread_same (ht : s.threads[t]? = some th) {stage : CallStage}
    (hsame : stage.flushIndex = th.stage.flushIndex) (script : List (ThreadCall φ ε))
    (h : Holder) : (s.setThread t stage script).flushIndex h = s.flushIndex h := by
  rw [flushIndex_setThread ht]
  split_ifs with hholder
  · rw [hsame, hholder, flushIndex_thread ht]
  · rfl

/-- A new worker does not flush. -/
theorem flushIndex_construct (s : FlusherSystem φ ε) (interval : ℕ) (h : Holder) :
    (s.construct interval).flushIndex h = s.flushIndex h := by
  cases h with
  | thread t => rfl
  | worker i =>
      rw [flushIndex, flushIndex, construct]
      dsimp only
      rcases lt_trichotomy i s.workers.length with hlt | rfl | hgt
      · rw [List.getElem?_append_left hlt]
      · rw [List.getElem?_concat_length, List.getElem?_eq_none le_rfl, PeriodicWorker.new]
        split_ifs <;> rfl
      · rw [List.getElem?_eq_none (by rw [List.length_append, List.length_singleton]; omega),
          List.getElem?_eq_none hgt.le]

end Moves

end FlusherSystem

end Structlog
