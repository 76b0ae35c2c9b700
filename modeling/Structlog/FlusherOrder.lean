import Structlog.FlusherWorkers

/-!
# The registry in one order

The critical sections of the registry, one after the other, are a machine of their own:
`SerialRegistry`, in which `flush_all` flushes all loggers at once.  An interleaving of
the threads does what this machine does on the sections in the order in which they were
entered (`interleaving_is_serial`), and each thread's sections are those of its calls.
The loop of `flush_all` reads the map as it goes on, so this needs `logger_map_mutex_`.
-/

namespace Structlog

open Lib

variable {φ ε : Type*}

/-- The registry and what has been flushed. -/
structure SerialRegistry (φ ε : Type*) where
  registry : Registry φ ε
  flushed : List (Holder × Addr)

namespace SerialRegistry

variable [FormatterBase φ]

/-- A critical section as a whole. -/
def step (q : SerialRegistry φ ε) (p : Holder × RegistrySection φ ε) : SerialRegistry φ ε :=
  match p.2 with
  | .call c => { q with registry := q.registry.step c }
  | .resetFlusher => { q with registry := { q.registry with periodicFlusher := none } }
  | .flushAll =>
      { q with flushed := q.flushed ++ q.registry.loggers.entries.map fun e => (p.1, e.2) }

/-- The sections of a call without others in between. -/
theorem run_sections (q : SerialRegistry φ ε) (h : Holder) (c : RegistryCall φ ε) :
    Runs.run step q ((ThreadCall.registry c).sections.map (Prod.mk h)) =
      { q with registry := q.registry.step c } := by
  cases c <;> rfl

theorem consistent_step {q : SerialRegistry φ ε} (h : q.registry.Consistent)
    (p : Holder × RegistrySection φ ε) : (q.step p).registry.Consistent := by
  obtain ⟨holder, sec⟩ := p
  cases sec with
  | call c => exact h.step c
  | resetFlusher => exact h.frame ⟨rfl, rfl, fun _ => rfl⟩
  | flushAll => exact h

end SerialRegistry

/-- What a thread has still to enter in the call it is in. -/
def CallStage.sections : CallStage → List (RegistrySection φ ε)
  | .deactivating _ true | .notifying _ true | .joining _ true | .dropping =>
      [.call .dropAll, .call (.setTp none)]
  | .resettingTp => [.call (.setTp none)]
  | _ => []

/-- What a thread has still to enter. -/
def ApiThread.pending (th : ApiThread φ ε) : List (RegistrySection φ ε) :=
  th.stage.sections ++ th.script.flatMap ThreadCall.sections

namespace FlusherSystem

/-- What a thread has entered. -/
def sectionsOf (s : FlusherSystem φ ε) (t : ℕ) : List (RegistrySection φ ε) :=
  (s.sections.filter fun p => p.1 = .thread t).map Prod.snd

variable [FormatterBase φ]

/-- The registry after the sections that have been entered. -/
def serial (registry : Registry φ ε) (s : FlusherSystem φ ε) : SerialRegistry φ ε :=
  Runs.run SerialRegistry.step ⟨registry, []⟩ s.sections

/-! ## The registry -/

/-- The registry is as after the sections, and of the loggers that these flush only those are
missing that a `flush_all` under way has still to come to. -/
structure Serial (registry : Registry φ ε) (s : FlusherSystem φ ε) : Prop where
  same : (s.serial registry).registry = s.registry
  idle : s.loggerMapMutex = none → (s.serial registry).flushed = s.flushed
  busy : ∀ (h : Holder) (next : ℕ), s.flushIndex h = some next →
    (s.serial registry).flushed = s.flushed ++ (s.registered.drop next).map (Prod.mk h)

namespace Serial

variable {registry : Registry φ ε} {s s' : FlusherSystem φ ε} {move : FlusherAct}

theorem serial_append {p : Holder × RegistrySection φ ε}
    (hsections : s'.sections = s.sections ++ [p]) :
    s'.serial registry = (s.serial registry).step p := by
  rw [serial, serial, hsections, Runs.run, List.foldl_append]
  rfl

/-- A step that changes neither the registry nor who is in `flush_all`. -/
theorem stay (h : s.Serial registry) (hregistry : s'.registry = s.registry)
    (hsections : s'.sections = s.sections) (hflushed : s'.flushed = s.flushed)
    (hmutex : s'.loggerMapMutex = s.loggerMapMutex)
    (hindex : ∀ h, s'.flushIndex h = s.flushIndex h) : s'.Serial registry := by
  have hserial : s'.serial registry = s.serial registry := by
    rw [serial, serial, hsections]
  refine ⟨?_, ?_, ?_⟩
  · rw [hserial, hregistry]
    exact h.same
  · rw [hserial, hflushed, hmutex]
    exact h.idle
  · intro holder next hnext
    rw [hserial, hflushed, registered, hregistry]
    exact h.busy holder next ((hindex holder).symm.trans hnext)

/-- `flush_all` starts. -/
theorem enter (h : s.Serial registry) (hlocks : s.Locks) {holder : Holder}
    (hfree : s.loggerMapMutex = none) (hregistry : s'.registry = s.registry)
    (hsections : s'.sections = s.sections ++ [(holder, .flushAll)])
    (hflushed : s'.flushed = s.flushed) (hmutex : s'.loggerMapMutex = some holder)
    (hindex : ∀ other, s'.flushIndex other =
      if other = holder then some 0 else s.flushIndex other) : s'.Serial registry := by
  have hserial : s'.serial registry = (s.serial registry).step (holder, .flushAll) :=
    serial_append hsections
  have hall : (s'.serial registry).flushed = s'.flushed ++ s'.registered.map (Prod.mk holder) := by
    rw [hserial, SerialRegistry.step, hflushed, registered, hregistry, ← h.same, List.map_map]
    dsimp only
    -- nobody was in `flush_all`, so nothing was missing
    rw [h.idle hfree]
    rfl
  refine ⟨?_, ?_, ?_⟩
  · rw [hserial, hregistry]
    exact h.same
  · intro hnone
    rw [hmutex] at hnone
    cases hnone
  · intro other next hnext
    rw [hindex] at hnext
    split_ifs at hnext with hother
    · obtain rfl := Option.some.inj hnext
      rw [hother, List.drop_zero]
      exact hall
    · refine absurd ?_ (Guards.not_inside (hfree ▸ hlocks.loggerMap) other)
      exact Option.isSome_of_eq_some hnext

/-- `flush_all` gets to a logger. -/
theorem flush (h : s.Serial registry) (hlocks : s.Locks) {holder : Holder} {next : ℕ} {a : Addr}
    (hin : s.flushIndex holder = some next) (hnext : s.registered[next]? = some a)
    (hregistry : s'.registry = s.registry) (hsections : s'.sections = s.sections)
    (hflushed : s'.flushed = s.flushed ++ [(holder, a)])
    (hmutex : s'.loggerMapMutex = s.loggerMapMutex)
    (hindex : ∀ other, s'.flushIndex other =
      if other = holder then some (next + 1) else s.flushIndex other) : s'.Serial registry := by
  have hserial : s'.serial registry = s.serial registry := by
    rw [serial, serial, hsections]
  have hholder : s.loggerMapMutex = some holder := hlocks.mutex_of_index hin
  refine ⟨?_, ?_, ?_⟩
  · rw [hserial, hregistry]
    exact h.same
  · intro hnone
    rw [hmutex, hholder] at hnone
    cases hnone
  · intro other next' hnext'
    rw [hindex] at hnext'
    split_ifs at hnext' with hother
    · obtain rfl := Option.some.inj hnext'
      obtain ⟨hlt, ha⟩ := List.getElem?_eq_some_iff.mp hnext
      have hdrop : s.registered.drop next = a :: s.registered.drop (next + 1) := by
        rw [List.drop_eq_getElem_cons hlt, ha]
      -- the logger moves from what is left to what has been flushed
      have hbusy := h.busy holder next hin
      rw [hdrop, List.map_cons] at hbusy
      rw [hserial, hflushed, hother, hbusy, List.append_assoc, registered, registered, hregistry]
      rfl
    · -- nobody else is in `flush_all`
      have hin' := hlocks.mutex_of_index hnext'
      exact absurd (Option.some.inj (hin'.symm.trans hholder)) hother

/-- `flush_all` has come to the end of the map. -/
theorem leave (h : s.Serial registry) (hlocks : s.Locks) {holder : Holder} {next : ℕ}
    (hin : s.flushIndex holder = some next) (hnext : s.registered[next]? = none)
    (hregistry : s'.registry = s.registry) (hsections : s'.sections = s.sections)
    (hflushed : s'.flushed = s.flushed)
    (hindex : ∀ other, s'.flushIndex other =
      if other = holder then none else s.flushIndex other) : s'.Serial registry := by
  have hserial : s'.serial registry = s.serial registry := by
    rw [serial, serial, hsections]
  have hholder : s.loggerMapMutex = some holder := hlocks.mutex_of_index hin
  refine ⟨?_, ?_, ?_⟩
  · rw [hserial, hregistry]
    exact h.same
  · intro _
    rw [hserial, hflushed, h.busy holder next hin,
      List.drop_of_length_le (List.getElem?_eq_none_iff.mp hnext)]
    exact List.append_nil _
  · intro other next' hnext'
    rw [hindex] at hnext'
    split_ifs at hnext' with hother
    have hin' := hlocks.mutex_of_index hnext'
    exact absurd (Option.some.inj (hin'.symm.trans hholder)) hother

/-- Another section, which leaves the map as it is while somebody goes through it. -/
theorem enterSection (h : s.Serial registry) (hlocks : s.Locks)
    {p : Holder × RegistrySection φ ε}
    (hregistry : (SerialRegistry.step ⟨s.registry, (s.serial registry).flushed⟩ p).registry =
      s'.registry)
    (hnoFlush : p.2 ≠ .flushAll) (hsections : s'.sections = s.sections ++ [p])
    (hflushed : s'.flushed = s.flushed) (hmutex : s'.loggerMapMutex = s.loggerMapMutex)
    (hmap : s.loggerMapMutex = none ∨ s'.registry.loggers = s.registry.loggers)
    (hindex : ∀ h, s'.flushIndex h = s.flushIndex h) : s'.Serial registry := by
  have hserial : s'.serial registry = (s.serial registry).step p := serial_append hsections
  have hsame : s.serial registry = ⟨s.registry, (s.serial registry).flushed⟩ := by
    rw [← h.same]
  have hnothing : (s'.serial registry).flushed = (s.serial registry).flushed := by
    rw [hserial, SerialRegistry.step]
    split
    · rfl
    · rfl
    · next heq => exact absurd heq hnoFlush
  refine ⟨?_, ?_, ?_⟩
  · rw [hserial, hsame]
    exact hregistry
  · rw [hnothing, hflushed, hmutex]
    exact h.idle
  · intro holder next hnext
    rw [hindex] at hnext
    have hin := hlocks.mutex_of_index hnext
    have hloggers : s'.registry.loggers = s.registry.loggers := by
      -- somebody is in `flush_all`, so the map was not free
      refine hmap.resolve_left ?_
      rw [hin]
      exact Option.some_ne_none holder
    rw [hnothing, hflushed, registered, hloggers]
    exact h.busy holder next hnext

theorem step (h : s.Serial registry) (hlocks : s.Locks) (hstep : s.Step move s') :
    s'.Serial registry := by
  cases hstep with
  | @recheck move i w hw hstage hlocked hnotified =>
      refine h.stay rfl rfl rfl rfl (flushIndex_setWorker_same hw ?_)
      have hindex : w.stage.flushIndex = none := by
        rcases hstage with heq | ⟨_, heq⟩ <;> rw [heq] <;> rfl
      rcases w.recheck_cases with ⟨-, heq⟩ | ⟨-, heq⟩ <;> rw [heq, hindex] <;> rfl
  | @timeUp i w hw hstage hlocked =>
      obtain ⟨notified, hstage⟩ := hstage
      refine h.stay rfl rfl rfl rfl (flushIndex_setWorker_same hw ?_)
      rcases w.timeUp_cases with ⟨-, heq⟩ | ⟨-, heq⟩ <;> rw [heq, hstage] <;> rfl
  | @enterWorker i w hw hstage hfree =>
      exact h.enter hlocks hfree rfl rfl rfl rfl
        (flushIndex_setWorker (s := s.enterFlushAll (.worker i)) hw { w with stage := .flushing 0 })
  | @flushWorker i next w a hw hstage hnext =>
      have hin : s.flushIndex (.worker i) = some next := by
        rw [flushIndex_worker hw, hstage]
        rfl
      exact h.flush hlocks hin hnext rfl rfl rfl rfl
        (flushIndex_setWorker (s := s.flush (.worker i) a) hw
          { w with stage := .flushing (next + 1) })
  | @leaveWorker i next w hw hstage hnext =>
      have hin : s.flushIndex (.worker i) = some next := by
        rw [flushIndex_worker hw, hstage]
        rfl
      exact h.leave hlocks hin hnext rfl rfl rfl
        (flushIndex_setWorker (s := { s with loggerMapMutex := none }) hw
          { w with locked := false, stage := .locking })
  | @enterThread t script ht hfree =>
      exact h.enter hlocks hfree rfl rfl rfl rfl
        (flushIndex_setThread (s := s.enterFlushAll (.thread t)) ht (.flushing 0) script)
  | @flushThread t next script a ht hnext =>
      exact h.flush hlocks (flushIndex_thread ht) hnext rfl rfl rfl rfl
        (flushIndex_setThread (s := s.flush (.thread t) a) ht (.flushing (next + 1)) script)
  | @leaveThread t next script ht hnext =>
      exact h.leave hlocks (flushIndex_thread ht) hnext rfl rfl rfl
        (flushIndex_setThread (s := { s with loggerMapMutex := none }) ht .between script)
  | @flushEvery t interval script ht hfree =>
      have hentered : ((s.applyCall t (.flushEvery interval)).construct interval).Serial
          registry :=
        h.enterSection hlocks (p := (.thread t, .call (.flushEvery interval))) rfl (by simp) rfl
          rfl rfl (.inr rfl) (flushIndex_construct (s.applyCall t (.flushEvery interval)) interval)
      -- replacing the flusher touches neither the map nor what has been flushed
      obtain ⟨hregistry, hsections, hflushed, hmutex⟩ := replaceFlusher_same
        ((s.applyCall t (.flushEvery interval)).construct interval) t script
        (some s.workers.length) false
      exact hentered.stay hregistry hsections hflushed hmutex
        (flushIndex_replaceFlusher
          (s := (s.applyCall t (.flushEvery interval)).construct interval) ht rfl script _ false)
  | @shutdown t script ht hfree =>
      have hentered : (s.applyReset t).Serial registry :=
        h.enterSection hlocks (p := (.thread t, .resetFlusher)) rfl (by simp) rfl rfl rfl (.inr rfl)
          fun _ => rfl
      obtain ⟨hregistry, hsections, hflushed, hmutex⟩ :=
        replaceFlusher_same (s.applyReset t) t script none true
      exact hentered.stay hregistry hsections hflushed hmutex
        (flushIndex_replaceFlusher (s := s.applyReset t) ht rfl script none true)
  | @deactivate t old closing script w ht hw hlocked =>
      have hset : (s.setWorker old { w with active := false }).Serial registry :=
        h.stay rfl rfl rfl rfl (flushIndex_setWorker_same hw rfl)
      exact hset.stay rfl rfl rfl rfl (flushIndex_setThread_same
        (s := s.setWorker old { w with active := false }) ht (by rfl) script)
  | @notify t old closing script w ht hw =>
      have hindex : w.notify.stage.flushIndex = w.stage.flushIndex := by
        rcases w.notify_cases with ⟨⟨notified, hstage⟩, heq⟩ | ⟨-, heq⟩ <;> rw [heq]
        rw [hstage]
        rfl
      have hset : (s.setWorker old w.notify).Serial registry :=
        h.stay rfl rfl rfl rfl (flushIndex_setWorker_same hw hindex)
      exact hset.stay rfl rfl rfl rfl
        (flushIndex_setThread_same (s := s.setWorker old w.notify) ht (by rfl) script)
  | @join t old closing script w ht hw hexited =>
      refine h.stay rfl rfl rfl rfl ?_
      exact flushIndex_setThread_same (s := { s with flusherMutex := none }) ht
        (by cases closing <;> rfl) script
  | @single t before c stage script ht hsingle hmap hflusher =>
      refine h.enterSection hlocks (p := (.thread t, .call c)) rfl (by simp) rfl rfl rfl hmap ?_
      exact flushIndex_setThread_same (s := s.applyCall t c) ht (by cases hsingle <;> rfl) script

end Serial

/-! ## The threads -/

section Threads

variable {scripts : List (List (ThreadCall φ ε))} {s s' : FlusherSystem φ ε} {move : FlusherAct}

omit [FormatterBase φ]

/-- What a thread has entered and what it has still to enter are the sections of its calls. -/
def InOrder (scripts : List (List (ThreadCall φ ε))) (s : FlusherSystem φ ε) : Prop :=
  ∀ (t : ℕ) (th : ApiThread φ ε), s.threads[t]? = some th →
    ∃ script, scripts[t]? = some script ∧
      s.sectionsOf t ++ th.pending = script.flatMap ThreadCall.sections

theorem sectionsOf_append {added : List (Holder × RegistrySection φ ε)}
    (hsections : s'.sections = s.sections ++ added) (t : ℕ) :
    s'.sectionsOf t =
      s.sectionsOf t ++ (added.filter fun p => p.1 = .thread t).map Prod.snd := by
  rw [sectionsOf, sectionsOf, hsections, List.filter_append, List.map_append]

theorem InOrder.of_worker (h : s.InOrder scripts) (hthreads : s'.threads = s.threads)
    {added : List (Holder × RegistrySection φ ε)} (hsections : s'.sections = s.sections ++ added)
    (hother : ∀ p ∈ added, ∀ t, p.1 ≠ .thread t) : s'.InOrder scripts := by
  intro t th ht
  have hnone : (added.filter fun p => p.1 = .thread t) = [] :=
    List.filter_eq_nil_iff.mpr fun p hp => by simpa using hother p hp t
  rw [sectionsOf_append hsections, hnone, List.map_nil, List.append_nil]
  exact h t th (hthreads ▸ ht)

theorem InOrder.of_thread (h : s.InOrder scripts) {t : ℕ} {th th' : ApiThread φ ε}
    (ht : s.threads[t]? = some th) (hthreads : s'.threads = s.threads.set t th')
    (added : List (RegistrySection φ ε))
    (hsections : s'.sections = s.sections ++ added.map (Prod.mk (.thread t)))
    (hpending : th.pending = added ++ th'.pending) : s'.InOrder scripts := by
  intro u thu hu
  rw [hthreads, getElem?_set_of_some ht] at hu
  split_ifs at hu with heq
  · obtain rfl := Option.some.inj hu
    obtain ⟨script, hscript, hcalls⟩ := h t th ht
    have hmine : ((added.map (Prod.mk (Holder.thread t))).filter fun p =>
        p.1 = .thread u).map Prod.snd = added := by
      rw [List.filter_eq_self.mpr (by simp [heq]), List.map_map]
      exact List.map_id added
    refine ⟨script, heq ▸ hscript, ?_⟩
    rw [sectionsOf_append hsections, hmine, heq, List.append_assoc, ← hpending]
    exact hcalls
  · have hnone : ((added.map (Prod.mk (Holder.thread t))).filter fun p =>
        p.1 = .thread u) = [] := by
      refine List.filter_eq_nil_iff.mpr ?_
      intro p hp
      obtain ⟨sec, -, rfl⟩ := List.mem_map.mp hp
      simpa using Ne.symm heq
    rw [sectionsOf_append hsections, hnone, List.map_nil, List.append_nil]
    exact h u thu hu

variable [FormatterBase φ]

theorem InOrder.step (h : s.InOrder scripts) (hstep : s.Step move s') : s'.InOrder scripts := by
  have hnothing (p : Holder × RegistrySection φ ε) (hp : p ∈ []) (t : ℕ) : p.1 ≠ .thread t :=
    absurd hp List.not_mem_nil
  cases hstep with
  | recheck => exact h.of_worker rfl (List.append_nil _).symm hnothing
  | timeUp => exact h.of_worker rfl (List.append_nil _).symm hnothing
  | enterWorker => exact h.of_worker rfl rfl (by simp)
  | flushWorker => exact h.of_worker rfl (List.append_nil _).symm hnothing
  | leaveWorker => exact h.of_worker rfl (List.append_nil _).symm hnothing
  | enterThread ht hfree => exact h.of_thread ht rfl [.flushAll] rfl rfl
  | flushThread ht hnext => exact h.of_thread ht rfl [] (List.append_nil _).symm rfl
  | leaveThread ht hnext => exact h.of_thread ht rfl [] (List.append_nil _).symm rfl
  | @flushEvery t interval script ht hfree =>
      obtain ⟨stage, hthreads, hstage⟩ := threads_replaceFlusher
        ((s.applyCall t (.flushEvery interval)).construct interval) t script
        (some s.workers.length) false
      refine h.of_thread ht hthreads [.call (.flushEvery interval)] ?_ ?_
      · exact (replaceFlusher_same _ _ _ _ _).2.1
      · rcases hstage with rfl | ⟨old, rfl⟩ <;> rfl
  | @shutdown t script ht hfree =>
      obtain ⟨stage, hthreads, hstage⟩ :=
        threads_replaceFlusher (s.applyReset t) t script none true
      refine h.of_thread ht hthreads [.resetFlusher] ?_ ?_
      · exact (replaceFlusher_same _ _ _ _ _).2.1
      · rcases hstage with rfl | ⟨old, rfl⟩ <;> rfl
  | @deactivate t old closing script w ht hw hlocked =>
      refine h.of_thread ht rfl [] (List.append_nil _).symm ?_
      cases closing <;> rfl
  | @notify t old closing script w ht hw =>
      refine h.of_thread ht rfl [] (List.append_nil _).symm ?_
      cases closing <;> rfl
  | @join t old closing script w ht hw hexited =>
      refine h.of_thread ht rfl [] (List.append_nil _).symm ?_
      cases closing <;> rfl
  | @single t before c stage script ht hsingle hmap hflusher =>
      refine h.of_thread ht rfl [.call c] rfl ?_
      cases hsingle with
      | call hsections =>
          rw [ApiThread.pending, ApiThread.pending, List.flatMap_cons, hsections]
          rfl
      | dropAll => rfl
      | resetTp => rfl

end Threads

/-! ## Runs -/

/-- Whatever the interleaving, the registry is as if the critical sections had been run one
after the other, each as a whole; so is what has been flushed, but for the `flush_all` under way.
The order keeps each thread's calls in their order. -/
theorem interleaving_is_serial {registry : Registry φ ε} {scripts : List (List (ThreadCall φ ε))}
    {s : FlusherSystem φ ε} {acts : List FlusherAct}
    (hrun : Runs.partialRun act (initial registry scripts) acts = some s) :
    (s.serial registry).registry = s.registry ∧
    (registry.Consistent → s.registry.Consistent) ∧
    (s.loggerMapMutex = none → (s.serial registry).flushed = s.flushed) ∧
    (∀ holder, s.loggerMapMutex = some holder →
      ∃ left : List Addr, (s.serial registry).flushed = s.flushed ++ left.map (Prod.mk holder)) ∧
    ∀ (t : ℕ) (th : ApiThread φ ε), s.threads[t]? = some th →
      ∃ script, scripts[t]? = some script ∧
        s.sectionsOf t ++ th.pending = script.flatMap ThreadCall.sections := by
  have hinitial : (initial registry scripts).InOrder scripts := by
    intro t th ht
    obtain ⟨script, hscript, rfl⟩ := initial_thread ht
    exact ⟨script, hscript, rfl⟩
  have hserial : (initial registry scripts).Serial registry := by
    refine ⟨rfl, fun _ => rfl, ?_⟩
    intro h next hnext
    have hmutex := (locks_initial registry scripts).mutex_of_index hnext
    cases hmutex
  obtain ⟨hlocks, h, horder⟩ := Runs.partialRun_invariant
    (motive := fun s : FlusherSystem φ ε => s.Locks ∧ s.Serial registry ∧ s.InOrder scripts)
    (fun s a s' ⟨hlocks, h, horder⟩ hact =>
      ⟨hlocks.step (step_of_act hact), h.step hlocks (step_of_act hact),
        horder.step (step_of_act hact)⟩)
    ⟨locks_initial registry scripts, hserial, hinitial⟩ hrun
  refine ⟨h.same, ?_, h.idle, ?_, horder⟩
  · intro hconsistent
    rw [← h.same]
    exact (Runs.invariant_of_steps (motive := fun q : SerialRegistry φ ε => q.registry.Consistent)
      (C := fun _ _ => True) (fun q p hq _ => SerialRegistry.consistent_step hq p) hconsistent
      s.sections fun _ _ => trivial).1
  · intro holder hholder
    obtain ⟨next, hnext⟩ := Option.isSome_iff_exists.mp ((hlocks.loggerMap holder).mpr hholder)
    exact ⟨s.registered.drop next, h.busy holder next hnext⟩

theorem interleaving_is_serial_shutdown :
    ∃ s, Runs.partialRun act (initial plainRegistry startAndShutDown) lateShutdown = some s ∧
      (s.serial plainRegistry).registry = s.registry ∧ s.registry.Consistent ∧
      s.sectionsOf 0 = [.call (.flushEvery 3), .resetFlusher] :=
  have h := @interleaving_is_serial _ _ _ plainRegistry startAndShutDown _ lateShutdown rfl
  ⟨_, rfl, h.1, h.2.1 (Registry.consistent_new _ _ _ _), rfl⟩

end FlusherSystem

end Structlog
