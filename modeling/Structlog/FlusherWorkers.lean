import Structlog.PeriodicFlusher

/-!
# The workers of the periodic flusher

`Locks` says that the mutexes do what they are for: whoever is in a critical section holds
the mutex, and only one is.  `Owned` says that every worker that still runs is the one that
`periodic_flusher_` points to or is being destroyed.  Both hold of every state that can be
reached (`guarded_of_run`), so that between two calls that replace it only the current
worker runs.

The proofs go through the steps of `FlusherSystem.Step`, one lemma for what happens to the
lists that an invariant is about:

* a worker or a thread changes its stage (`Locks.setWorker`, `Locks.setThread`,
  `Owned.setWorker`, `Owned.setThread`);
* it takes or gives back the mutex (`Locks.enterWorker`, `Locks.leaveWorker`,
  `Locks.enterThread`, `Locks.leaveThread`);
* `periodic_flusher_` is assigned to, which constructs a worker and leaves an old one to be
  destroyed (`Locks.replaceFlusher`, `Owned.of_replaceFlusher`); the call goes on with the
  old one stage by stage (`Owned.advance`) and is rid of it in the end (`Owned.leave`).

`Locks.step` and `Owned.step` put them together, and the induction over the run is that of
`Runs`.  After a `shutdown` there is no flusher: `Halted` says that every worker has its
end before it, is kept by each step but the start of a `flush_every` (`Halted.step`), and
gives that nothing is flushed from a worker any more (`silent_without_flusher`).
-/

namespace Structlog

open Lib

variable {φ ε : Type*}

namespace PeriodicWorker

theorem not_inCallback {w : PeriodicWorker} (hcallback : w.stage ≠ .callback)
    (hindex : w.stage.flushIndex = none) : ¬ w.InCallback := by
  rintro (heq | hsome)
  · exact hcallback heq
  · rw [hindex] at hsome
    cases hsome

theorem recheck_cases (w : PeriodicWorker) :
    (w.active = true ∧ w.recheck = { w with stage := .waiting false }) ∨
      (w.active = false ∧ w.recheck = { w with stage := .exited }) := by
  rw [recheck]
  cases hactive : w.active
  · exact .inr ⟨rfl, by simp⟩
  · exact .inl ⟨rfl, by simp⟩

theorem timeUp_cases (w : PeriodicWorker) :
    (w.active = true ∧ w.timeUp = { w with locked := true, stage := .callback }) ∨
      (w.active = false ∧ w.timeUp = { w with stage := .exited }) := by
  rw [timeUp]
  cases hactive : w.active
  · exact .inr ⟨rfl, by simp⟩
  · exact .inl ⟨rfl, by simp⟩

theorem notify_cases (w : PeriodicWorker) :
    ((∃ notified, w.stage = .waiting notified) ∧ w.notify = { w with stage := .waiting true }) ∨
      ((∀ notified, w.stage ≠ .waiting notified) ∧ w.notify = w) := by
  rw [notify]
  split
  · next notified heq => exact .inl ⟨⟨notified, heq⟩, rfl⟩
  · next hother => exact .inr ⟨hother, rfl⟩

end PeriodicWorker

namespace FlusherSystem

/-! ## Destroying a worker -/

/-- Either the old worker's thread has to be joined, or there is none. -/
theorem replaceFlusher_cases (s : FlusherSystem φ ε) (t : ℕ) (script : List (ThreadCall φ ε))
    (replacement : Option ℕ) (closing : Bool) :
    (∃ old w, s.periodicFlusher = some old ∧ s.workers[old]? = some w ∧ w.stage ≠ .noThread ∧
      s.replaceFlusher t script replacement closing =
        { s with periodicFlusher := replacement, flusherMutex := some t }.setThread t
          (.deactivating old closing) script) ∨
    ((∀ old w, s.periodicFlusher = some old → s.workers[old]? = some w → w.stage = .noThread) ∧
      s.replaceFlusher t script replacement closing =
        { s with periodicFlusher := replacement }.setThread t (.afterFlusher closing) script) := by
  have hjoinable (w : PeriodicWorker) : w.joinable = true ↔ w.stage ≠ .noThread := bne_iff_ne
  cases hflusher : s.joinableFlusher with
  | some old =>
      obtain ⟨hold, hany⟩ := Option.filter_eq_some_iff.mp hflusher
      obtain ⟨w, hw, hthread⟩ := (Option.any_eq_true _ _).mp hany
      refine .inl ⟨old, w, hold, hw, (hjoinable w).mp hthread, ?_⟩
      rw [FlusherSystem.replaceFlusher, hflusher]
  | none =>
      refine .inr ⟨?_, ?_⟩
      · intro old w hold hw
        by_contra hthread
        have hall := Option.filter_eq_none_iff.mp hflusher old hold
        rw [hw] at hall
        exact hall ((hjoinable w).mpr hthread)
      · rw [FlusherSystem.replaceFlusher, hflusher]

theorem threads_replaceFlusher (s : FlusherSystem φ ε) (t : ℕ) (script : List (ThreadCall φ ε))
    (replacement : Option ℕ) (closing : Bool) :
    ∃ stage, (s.replaceFlusher t script replacement closing).threads =
        s.threads.set t ⟨stage, script⟩ ∧
      (stage = .afterFlusher closing ∨ ∃ old, stage = .deactivating old closing) := by
  rw [replaceFlusher]
  split
  · exact ⟨_, rfl, .inr ⟨_, rfl⟩⟩
  · exact ⟨_, rfl, .inl rfl⟩

/-! ## The mutexes -/

/-- Each mutex is held by whoever is in a section of it, and by nobody else. -/
structure Locks (s : FlusherSystem φ ε) : Prop where
  worker : ∀ (i : ℕ) (w : PeriodicWorker), s.workers[i]? = some w →
    (w.locked = true ↔ w.InCallback)
  loggerMap : Guards (fun h => (s.flushIndex h).isSome = true) s.loggerMapMutex
  flusher : Guards (fun t => (s.destroying t).isSome = true) s.flusherMutex

namespace Locks

variable {s : FlusherSystem φ ε} {i t : ℕ} {w : PeriodicWorker} {th : ApiThread φ ε}

theorem mutex_of_index (h : s.Locks) {holder : Holder} {next : ℕ}
    (hin : s.flushIndex holder = some next) : s.loggerMapMutex = some holder :=
  (h.loggerMap holder).mp (Option.isSome_of_eq_some hin)

/-- What the worker's own mutex asks of a worker that has moved. -/
theorem worker_setWorker (h : s.Locks) (hw : s.workers[i]? = some w) {w' : PeriodicWorker}
    (hmutex : w'.locked = true ↔ w'.InCallback)
    (j : ℕ) (v : PeriodicWorker) (hv : (s.setWorker i w').workers[j]? = some v) :
    v.locked = true ↔ v.InCallback := by
  rw [workers_setWorker hw] at hv
  split_ifs at hv with hj
  · obtain rfl := Option.some.inj hv
    exact hmutex
  · exact h.worker j v hv

/-- A worker moves, but not into the registry or out of it. -/
theorem setWorker (h : s.Locks) (hw : s.workers[i]? = some w) (w' : PeriodicWorker)
    (hmutex : w'.locked = true ↔ w'.InCallback)
    (hindex : w'.stage.flushIndex.isSome = w.stage.flushIndex.isSome) :
    (s.setWorker i w').Locks := by
  refine ⟨h.worker_setWorker hw hmutex, h.loggerMap.congr ?_, h.flusher⟩
  intro holder
  rw [flushIndex_setWorker hw]
  split_ifs with hholder
  · rw [hindex, hholder, flushIndex_worker hw]
  · rfl

/-- A thread moves, but not into a section or out of one. -/
theorem setThread (h : s.Locks) (ht : s.threads[t]? = some th) (stage : CallStage)
    (script : List (ThreadCall φ ε))
    (hindex : stage.flushIndex.isSome = th.stage.flushIndex.isSome)
    (hold : stage.old.isSome = th.stage.old.isSome) : (s.setThread t stage script).Locks := by
  refine ⟨h.worker, h.loggerMap.congr ?_, h.flusher.congr ?_⟩
  · intro holder
    rw [flushIndex_setThread ht]
    split_ifs with hholder
    · rw [hindex, hholder, flushIndex_thread ht]
    · rfl
  · intro u
    rw [destroying_setThread ht]
    split_ifs with hu
    · rw [hold, hu, destroying_thread ht]
    · rfl

theorem enterWorker (h : s.Locks) (hw : s.workers[i]? = some w) (hstage : w.stage = .callback)
    (hfree : s.loggerMapMutex = none) :
    ((s.enterFlushAll (.worker i)).setWorker i { w with stage := .flushing 0 }).Locks := by
  have hlocked : w.locked = true := (h.worker i w hw).mpr (.inl hstage)
  refine ⟨h.worker_setWorker hw (iff_of_true hlocked (.inr rfl)), ?_, h.flusher⟩
  refine Guards.acquire (hfree ▸ h.loggerMap) ?_ ?_
  · rw [flushIndex_setWorker (s := s.enterFlushAll (.worker i)) hw, if_pos rfl]
    rfl
  · intro other hother
    rw [flushIndex_setWorker (s := s.enterFlushAll (.worker i)) hw, if_neg hother]
    rfl

theorem leaveWorker {next : ℕ} (h : s.Locks) (hw : s.workers[i]? = some w)
    (hstage : w.stage = .flushing next) :
    ({ s with loggerMapMutex := none }.setWorker i
      { w with locked := false, stage := .locking }).Locks := by
  have hin : (s.flushIndex (.worker i)).isSome = true := by
    rw [flushIndex_worker hw, hstage]
    rfl
  refine ⟨h.worker_setWorker hw ?_, ?_, h.flusher⟩
  · exact iff_of_false Bool.false_ne_true (PeriodicWorker.not_inCallback (by simp) rfl)
  · refine Guards.release ((h.loggerMap _).mp hin ▸ h.loggerMap) ?_ ?_
    · rw [flushIndex_setWorker (s := { s with loggerMapMutex := none }) hw, if_pos rfl]
      exact Bool.false_ne_true
    · intro other hother
      rw [flushIndex_setWorker (s := { s with loggerMapMutex := none }) hw, if_neg hother]
      rfl

theorem enterThread (h : s.Locks) (ht : s.threads[t]? = some th) (hbefore : th.stage = .between)
    (script : List (ThreadCall φ ε)) (hfree : s.loggerMapMutex = none) :
    ((s.enterFlushAll (.thread t)).setThread t (.flushing 0) script).Locks := by
  refine ⟨h.worker, ?_, ?_⟩
  · refine Guards.acquire (hfree ▸ h.loggerMap) ?_ ?_
    · rw [flushIndex_setThread (s := s.enterFlushAll (.thread t)) ht, if_pos rfl]
      rfl
    · intro other hother
      rw [flushIndex_setThread (s := s.enterFlushAll (.thread t)) ht, if_neg hother]
      rfl
  · refine h.flusher.congr ?_
    intro u
    rw [destroying_setThread (s := s.enterFlushAll (.thread t)) ht]
    split_ifs with hu
    · rw [hu, destroying_thread ht, hbefore]
      rfl
    · rfl

theorem leaveThread {next : ℕ} (h : s.Locks) (ht : s.threads[t]? = some th)
    (hstage : th.stage = .flushing next) (script : List (ThreadCall φ ε)) :
    ({ s with loggerMapMutex := none }.setThread t .between script).Locks := by
  have hin : (s.flushIndex (.thread t)).isSome = true := by
    rw [flushIndex_thread ht, hstage]
    rfl
  refine ⟨h.worker, ?_, ?_⟩
  · refine Guards.release ((h.loggerMap _).mp hin ▸ h.loggerMap) ?_ ?_
    · rw [flushIndex_setThread (s := { s with loggerMapMutex := none }) ht, if_pos rfl]
      exact Bool.false_ne_true
    · intro other hother
      rw [flushIndex_setThread (s := { s with loggerMapMutex := none }) ht, if_neg hother]
      rfl
  · refine h.flusher.congr ?_
    intro u
    rw [destroying_setThread (s := { s with loggerMapMutex := none }) ht]
    split_ifs with hu
    · rw [hu, destroying_thread ht, hstage]
      rfl
    · rfl

/-- A new worker holds nothing. -/
theorem construct (h : s.Locks) (interval : ℕ) : (s.construct interval).Locks := by
  refine ⟨?_, h.loggerMap.congr ?_, h.flusher⟩
  · intro j v hv
    rw [FlusherSystem.construct] at hv
    rcases getElem?_concat_eq_some hv with hold | ⟨-, rfl⟩
    · exact h.worker j v hold
    · rw [PeriodicWorker.new]
      by_cases hpos : 0 < interval
      · rw [if_pos hpos]
        exact iff_of_false Bool.false_ne_true (PeriodicWorker.not_inCallback (by simp) rfl)
      · rw [if_neg hpos]
        exact iff_of_false Bool.false_ne_true (PeriodicWorker.not_inCallback (by simp) rfl)
  · intro holder
    rw [flushIndex_construct]

theorem replaceFlusher (h : s.Locks) (ht : s.threads[t]? = some th) (hbefore : th.stage = .between)
    (hfree : s.flusherMutex = none) (script : List (ThreadCall φ ε)) (replacement : Option ℕ)
    (closing : Bool) : (s.replaceFlusher t script replacement closing).Locks := by
  rcases replaceFlusher_cases s t script replacement closing with
    ⟨old, w, -, -, -, heq⟩ | ⟨-, heq⟩
  · rw [heq]
    refine ⟨h.worker, h.loggerMap.congr ?_, ?_⟩
    · intro holder
      rw [flushIndex_setThread (s := { s with
        periodicFlusher := replacement, flusherMutex := some t }) ht]
      split_ifs with hholder
      · rw [hholder, flushIndex_thread ht, hbefore]
        rfl
      · rfl
    · refine Guards.acquire (hfree ▸ h.flusher) ?_ ?_
      · rw [destroying_setThread (s := { s with
          periodicFlusher := replacement, flusherMutex := some t }) ht, if_pos rfl]
        rfl
      · intro other hother
        rw [destroying_setThread (s := { s with
          periodicFlusher := replacement, flusherMutex := some t }) ht, if_neg hother]
        rfl
  · rw [heq]
    have hsame : ({ s with periodicFlusher := replacement } : FlusherSystem φ ε).Locks :=
      ⟨h.worker, h.loggerMap, h.flusher⟩
    refine hsame.setThread ht _ script ?_ ?_
    · rw [hbefore]
      cases closing <;> rfl
    · rw [hbefore]
      cases closing <;> rfl

theorem leaveFlusher {old : ℕ} (h : s.Locks) (ht : s.threads[t]? = some th) {replacing : Bool}
    (hstage : th.stage = .joining old replacing) (script : List (ThreadCall φ ε)) (closing : Bool) :
    ({ s with flusherMutex := none }.setThread t (.afterFlusher closing) script).Locks := by
  have hin : (s.destroying t).isSome = true := by
    rw [destroying_thread ht, hstage]
    rfl
  refine ⟨h.worker, h.loggerMap.congr ?_, ?_⟩
  · intro holder
    rw [flushIndex_setThread (s := { s with flusherMutex := none }) ht]
    split_ifs with hholder
    · rw [hholder, flushIndex_thread ht, hstage]
      cases closing <;> rfl
    · rfl
  · refine Guards.release ((h.flusher t).mp hin ▸ h.flusher) ?_ ?_
    · rw [destroying_setThread (s := { s with flusherMutex := none }) ht, if_pos rfl]
      cases closing <;> exact Bool.false_ne_true
    · intro other hother
      rw [destroying_setThread (s := { s with flusherMutex := none }) ht, if_neg hother]
      rfl

variable [FormatterBase φ]

/-- Every step keeps the mutexes in order. -/
theorem step {s' : FlusherSystem φ ε} {move : FlusherAct} (h : s.Locks)
    (hstep : s.Step move s') : s'.Locks := by
  cases hstep with
  | @recheck move i w hw hstage hlocked hnotified =>
      have hindex : w.stage.flushIndex = none := by
        rcases hstage with heq | ⟨_, heq⟩ <;> rw [heq] <;> rfl
      rcases w.recheck_cases with ⟨-, heq⟩ | ⟨-, heq⟩ <;> rw [heq]
      · refine h.setWorker hw _ (iff_of_false (by simp [hlocked]) ?_) (by rw [hindex]; rfl)
        exact PeriodicWorker.not_inCallback (by simp) rfl
      · refine h.setWorker hw _ (iff_of_false (by simp [hlocked]) ?_) (by rw [hindex]; rfl)
        exact PeriodicWorker.not_inCallback (by simp) rfl
  | @timeUp i w hw hstage hlocked =>
      obtain ⟨notified, hstage⟩ := hstage
      rcases w.timeUp_cases with ⟨-, heq⟩ | ⟨-, heq⟩ <;> rw [heq]
      · exact h.setWorker hw _ (iff_of_true rfl (.inl rfl)) (by rw [hstage]; rfl)
      · refine h.setWorker hw _ (iff_of_false (by simp [hlocked]) ?_) (by rw [hstage]; rfl)
        exact PeriodicWorker.not_inCallback (by simp) rfl
  | enterWorker hw hstage hfree => exact h.enterWorker hw hstage hfree
  | @flushWorker i next w a hw hstage hnext =>
      -- a worker flushes with its own mutex held, beside the one of the map
      have hlocked : w.locked = true := (h.worker i w hw).mpr (.inr (by rw [hstage]; rfl))
      have hflushed : (s.flush (.worker i) a).Locks := ⟨h.worker, h.loggerMap, h.flusher⟩
      exact hflushed.setWorker hw _ (iff_of_true hlocked (.inr rfl)) (by rw [hstage]; rfl)
  | leaveWorker hw hstage hnext => exact h.leaveWorker hw hstage
  | enterThread ht hfree => exact h.enterThread ht rfl _ hfree
  | @flushThread t next script a ht hnext =>
      have hflushed : (s.flush (.thread t) a).Locks := ⟨h.worker, h.loggerMap, h.flusher⟩
      exact hflushed.setThread ht _ script rfl rfl
  | leaveThread ht hnext => exact h.leaveThread ht rfl _
  | @flushEvery t interval script ht hfree =>
      -- the new worker is outside its callback, so its mutex is free
      have hcalled : (s.applyCall t (.flushEvery interval)).Locks :=
        ⟨h.worker, h.loggerMap, h.flusher⟩
      exact (hcalled.construct interval).replaceFlusher ht rfl hfree script _ false
  | @shutdown t script ht hfree =>
      have hreset : (s.applyReset t).Locks := ⟨h.worker, h.loggerMap, h.flusher⟩
      exact hreset.replaceFlusher ht rfl hfree script none true
  | @deactivate t old closing script w ht hw hlocked =>
      have hmutex : w.locked = true ↔ ({ w with active := false } : PeriodicWorker).InCallback :=
        h.worker old w hw
      exact (h.setWorker hw { w with active := false } hmutex rfl).setThread ht _ script rfl rfl
  | @notify t old closing script w ht hw =>
      rcases w.notify_cases with ⟨⟨notified, hstage⟩, heq⟩ | ⟨-, heq⟩ <;> rw [heq]
      -- a waiting worker has released its mutex
      · have hmutex : ¬ w.locked = true := by
          rw [h.worker old w hw]
          exact PeriodicWorker.not_inCallback (by simp [hstage]) (by rw [hstage]; rfl)
        have hset := h.setWorker hw { w with stage := .waiting true }
          (iff_of_false hmutex (PeriodicWorker.not_inCallback (by simp) rfl)) (by rw [hstage]; rfl)
        exact hset.setThread ht _ script rfl rfl
      · exact (h.setWorker hw w (h.worker old w hw) rfl).setThread ht _ script rfl rfl
  | @join t old closing script w ht hw hexited => exact h.leaveFlusher ht rfl script closing
  | @single t before c stage script ht hsingle hmap hflusher =>
      have hcalled : (s.applyCall t c).Locks := ⟨h.worker, h.loggerMap, h.flusher⟩
      refine hcalled.setThread ht stage script ?_ ?_
      · cases hsingle <;> rfl
      · cases hsingle <;> rfl

end Locks

end FlusherSystem

/-! ## Who owns a worker -/

/-- What the destructor knows of the worker. -/
def CallStage.Sees : CallStage → PeriodicWorker → Prop
  | .deactivating _ _, w => w.stage ≠ .noThread
  | .notifying _ _, w => w.stage ≠ .noThread ∧ w.active = false
  -- notified, so that it does not sleep on
  | .joining _ _, w => w.stage ≠ .noThread ∧ w.active = false ∧ w.stage ≠ .waiting false
  | _, _ => True

theorem CallStage.Sees.of_moves {stage : CallStage} {w w' : PeriodicWorker} (h : stage.Sees w)
    (hthread : w'.stage ≠ .noThread) (hactive : w'.active = w.active)
    (hasleep : w.active = false → w'.stage ≠ .waiting false) : stage.Sees w' := by
  cases stage with
  | deactivating old closing => exact hthread
  | notifying old closing => exact ⟨hthread, hactive.trans h.2⟩
  | joining old closing => exact ⟨hthread, hactive.trans h.2.1, hasleep h.2.1⟩
  | _ => trivial

namespace FlusherSystem

/-- A worker that runs is the current one or is being destroyed. -/
structure Owned (s : FlusherSystem φ ε) : Prop where
  running : ∀ (i : ℕ) (w : PeriodicWorker), s.workers[i]? = some w → w.Running →
    s.periodicFlusher = some i ∨ ∃ t, s.destroying t = some i
  stopping : ∀ (t : ℕ) (th : ApiThread φ ε) (old : ℕ), s.threads[t]? = some th →
    th.stage.old = some old → ∃ w, s.workers[old]? = some w ∧ th.stage.Sees w

namespace Owned

variable {s : FlusherSystem φ ε} {i t : ℕ} {w : PeriodicWorker} {th : ApiThread φ ε}

/-- A worker's own step. -/
theorem setWorker (h : s.Owned) (hw : s.workers[i]? = some w) (w' : PeriodicWorker)
    (hrunning : w.Running) (hthread : w'.stage ≠ .noThread) (hactive : w'.active = w.active)
    (hasleep : w.active = false → w'.stage ≠ .waiting false) : (s.setWorker i w').Owned := by
  constructor
  · intro j v hv hvrunning
    rw [workers_setWorker hw] at hv
    split_ifs at hv with hj
    · obtain rfl := Option.some.inj hv
      rw [hj]
      exact h.running i w hw hrunning
    · exact h.running j v hv hvrunning
  · intro u thu old hu hold
    obtain ⟨v, hv, hsees⟩ := h.stopping u thu old hu hold
    rw [workers_setWorker hw]
    split_ifs with hj
    · obtain rfl : v = w := Option.some.inj (hv.symm.trans (hj ▸ hw))
      exact ⟨w', rfl, hsees.of_moves hthread hactive hasleep⟩
    · exact ⟨v, hv, hsees⟩

/-- A thread moves outside the destructor. -/
theorem setThread (h : s.Owned) (ht : s.threads[t]? = some th) (hbefore : th.stage.old = none)
    (stage : CallStage) (script : List (ThreadCall φ ε)) (hafter : stage.old = none) :
    (s.setThread t stage script).Owned := by
  constructor
  · intro j v hv hrunning
    refine (h.running j v hv hrunning).imp_right ?_
    rintro ⟨u, hu⟩
    refine ⟨u, ?_⟩
    rw [destroying_setThread ht]
    split_ifs with heq
    · rw [heq, destroying_thread ht, hbefore] at hu
      cases hu
    · exact hu
  · intro u thu old hu hold
    rw [threads_setThread ht] at hu
    split_ifs at hu
    · obtain rfl := Option.some.inj hu
      rw [hafter] at hold
      cases hold
    · exact h.stopping u thu old hu hold

/-- The destructor takes a step, and what it does to the worker is what it then sees. -/
theorem advance (h : s.Owned) (hlocks : s.Locks) (ht : s.threads[t]? = some th)
    (hbefore : th.stage.old = some i) (hw : s.workers[i]? = some w) (w' : PeriodicWorker)
    (hrunning : w'.Running → w.Running) (stage : CallStage) (script : List (ThreadCall φ ε))
    (hafter : stage.old = some i) (hsees : stage.Sees w') :
    ((s.setWorker i w').setThread t stage script).Owned := by
  constructor
  · intro j v hv hvrunning
    have hkept : s.periodicFlusher = some j ∨ ∃ u, s.destroying u = some j := by
      change (s.setWorker i w').workers[j]? = some v at hv
      rw [workers_setWorker hw] at hv
      split_ifs at hv with hj
      · obtain rfl := Option.some.inj hv
        rw [hj]
        exact h.running i w hw (hrunning hvrunning)
      · exact h.running j v hv hvrunning
    refine hkept.imp_right ?_
    rintro ⟨u, hu⟩
    refine ⟨u, ?_⟩
    rw [destroying_setThread (s := s.setWorker i w') ht]
    split_ifs with heq
    · rw [hafter, ← hbefore, ← destroying_thread ht, ← heq]
      exact hu
    · exact hu
  · intro u thu old hu hold
    rw [threads_setThread (s := s.setWorker i w') ht] at hu
    split_ifs at hu with heq
    · obtain rfl := Option.some.inj hu
      obtain rfl : i = old := Option.some.inj (hafter.symm.trans hold)
      refine ⟨w', ?_, hsees⟩
      exact (workers_setWorker hw w' i).trans (if_pos rfl)
    · -- only one thread is in the section
      have hin : (s.destroying u).isSome = true := by
        rw [destroying_thread (s := s) hu, hold]
        rfl
      have hin' : (s.destroying t).isSome = true := by
        rw [destroying_thread ht, hbefore]
        rfl
      exact absurd (hlocks.flusher.unique hin hin') heq

/-- The old worker's thread has been joined. -/
theorem leave (h : s.Owned) (ht : s.threads[t]? = some th) (hbefore : th.stage.old = some i)
    (hw : s.workers[i]? = some w) (hexited : ¬ w.Running) (stage : CallStage)
    (script : List (ThreadCall φ ε)) (hafter : stage.old = none) :
    ({ s with flusherMutex := none }.setThread t stage script).Owned := by
  constructor
  · intro j v hv hrunning
    refine (h.running j v hv hrunning).imp_right ?_
    rintro ⟨u, hu⟩
    refine ⟨u, ?_⟩
    rw [destroying_setThread (s := { s with flusherMutex := none }) ht]
    split_ifs with heq
    · rw [heq, destroying_thread ht, hbefore] at hu
      obtain rfl := Option.some.inj hu
      obtain rfl : w = v := Option.some.inj (hw.symm.trans hv)
      exact absurd hrunning hexited
    · exact hu
  · intro u thu old hu hold
    rw [threads_setThread (s := { s with flusherMutex := none }) ht] at hu
    split_ifs at hu
    · obtain rfl := Option.some.inj hu
      rw [hafter] at hold
      cases hold
    · exact h.stopping u thu old hu hold

/-- `periodic_flusher_` is replaced while nobody destroys a worker. -/
theorem of_replaceFlusher (hlocks : s.Locks) (ht : s.threads[t]? = some th)
    (hfree : s.flusherMutex = none) (script : List (ThreadCall φ ε)) (replacement : Option ℕ)
    (closing : Bool)
    (hrunning : ∀ (i : ℕ) (w : PeriodicWorker), s.workers[i]? = some w → w.Running →
      s.periodicFlusher = some i ∨ replacement = some i) :
    (s.replaceFlusher t script replacement closing).Owned := by
  have hnobody (u : ℕ) (thu : ApiThread φ ε) (hu : s.threads[u]? = some thu) :
      thu.stage.old = none := by
    rw [← destroying_thread hu, ← Option.not_isSome_iff_eq_none]
    exact Guards.not_inside (hfree ▸ hlocks.flusher) u
  rcases replaceFlusher_cases s t script replacement closing with
    ⟨old, w, hold, hw, hthread, heq⟩ | ⟨hnoThread, heq⟩
  · rw [heq]
    constructor
    · intro j v hv hvrunning
      refine (hrunning j v hv hvrunning).symm.imp_right ?_
      intro hj
      refine ⟨t, ?_⟩
      rw [destroying_setThread (s := { s with
        periodicFlusher := replacement, flusherMutex := some t }) ht, if_pos rfl]
      exact hold.symm.trans hj
    · intro u thu old' hu hold'
      rw [threads_setThread (s := { s with
        periodicFlusher := replacement, flusherMutex := some t }) ht] at hu
      split_ifs at hu
      · obtain rfl := Option.some.inj hu
        obtain rfl := Option.some.inj hold'
        exact ⟨w, hw, hthread⟩
      · rw [hnobody u thu hu] at hold'
        cases hold'
  · rw [heq]
    constructor
    · intro j v hv hvrunning
      rcases hrunning j v hv hvrunning with hj | hj
      · exact absurd (hnoThread j v hj hv) hvrunning.1
      · exact .inl hj
    · intro u thu old hu hold
      rw [threads_setThread (s := { s with periodicFlusher := replacement }) ht] at hu
      split_ifs at hu
      · obtain rfl := Option.some.inj hu
        cases closing <;> cases hold
      · rw [hnobody u thu hu] at hold
        cases hold

variable [FormatterBase φ]

theorem step {s' : FlusherSystem φ ε} {move : FlusherAct} (h : s.Owned) (hlocks : s.Locks)
    (hstep : s.Step move s') : s'.Owned := by
  -- nobody destroys a worker, so that the current one is the only one that runs
  have hcurrent (hfree : s.flusherMutex = none) (i : ℕ) (w : PeriodicWorker)
      (hw : s.workers[i]? = some w) (hrunning : w.Running) : s.periodicFlusher = some i := by
    refine (h.running i w hw hrunning).resolve_right ?_
    rintro ⟨u, hu⟩
    exact Guards.not_inside (hfree ▸ hlocks.flusher) u (by rw [hu]; rfl)
  cases hstep with
  | @recheck move i w hw hstage hlocked hnotified =>
      have hrunning : w.Running := by
        rcases hstage with heq | ⟨_, heq⟩ <;> rw [PeriodicWorker.Running, heq] <;> simp
      rcases w.recheck_cases with ⟨hactive, heq⟩ | ⟨-, heq⟩ <;> rw [heq]
      · exact h.setWorker hw _ hrunning (by simp) rfl (by simp [hactive])
      · exact h.setWorker hw _ hrunning (by simp) rfl (by simp)
  | @timeUp i w hw hstage hlocked =>
      obtain ⟨notified, hstage⟩ := hstage
      have hrunning : w.Running := by rw [PeriodicWorker.Running, hstage]; simp
      rcases w.timeUp_cases with ⟨-, heq⟩ | ⟨-, heq⟩ <;> rw [heq]
      · exact h.setWorker hw _ hrunning (by simp) rfl (by simp)
      · exact h.setWorker hw _ hrunning (by simp) rfl (by simp)
  | @enterWorker i w hw hstage hfree =>
      have hrunning : w.Running := by rw [PeriodicWorker.Running, hstage]; simp
      have hentered : (s.enterFlushAll (.worker i)).Owned := ⟨h.running, h.stopping⟩
      exact hentered.setWorker hw _ hrunning (by simp) rfl (by simp)
  | @flushWorker i next w a hw hstage hnext =>
      have hrunning : w.Running := by rw [PeriodicWorker.Running, hstage]; simp
      have hflushed : (s.flush (.worker i) a).Owned := ⟨h.running, h.stopping⟩
      exact hflushed.setWorker hw _ hrunning (by simp) rfl (by simp)
  | @leaveWorker i next w hw hstage hnext =>
      have hrunning : w.Running := by rw [PeriodicWorker.Running, hstage]; simp
      have hleft : ({ s with loggerMapMutex := none } : FlusherSystem φ ε).Owned :=
        ⟨h.running, h.stopping⟩
      exact hleft.setWorker hw _ hrunning (by simp) rfl (by simp)
  | @enterThread t script ht hfree =>
      have hentered : (s.enterFlushAll (.thread t)).Owned := ⟨h.running, h.stopping⟩
      exact hentered.setThread ht rfl _ script rfl
  | @flushThread t next script a ht hnext =>
      have hflushed : (s.flush (.thread t) a).Owned := ⟨h.running, h.stopping⟩
      exact hflushed.setThread ht rfl _ script rfl
  | @leaveThread t next script ht hnext =>
      have hleft : ({ s with loggerMapMutex := none } : FlusherSystem φ ε).Owned :=
        ⟨h.running, h.stopping⟩
      exact hleft.setThread ht rfl _ script rfl
  | @flushEvery t interval script ht hfree =>
      have hcalled : (s.applyCall t (.flushEvery interval)).Locks :=
        ⟨hlocks.worker, hlocks.loggerMap, hlocks.flusher⟩
      refine of_replaceFlusher (hcalled.construct interval) ht hfree script _ false ?_
      intro i w hw hrunning
      -- an earlier worker that runs was the current one, and is the old one now
      rcases getElem?_concat_eq_some hw with hw | ⟨rfl, -⟩
      · exact .inl (hcurrent hfree i w hw hrunning)
      · exact .inr rfl
  | @shutdown t script ht hfree =>
      have hreset : (s.applyReset t).Locks := ⟨hlocks.worker, hlocks.loggerMap, hlocks.flusher⟩
      refine of_replaceFlusher hreset ht hfree script none true ?_
      exact fun i w hw hrunning => .inl (hcurrent hfree i w hw hrunning)
  | @deactivate t old closing script w ht hw hlocked =>
      -- the thread that destroys a worker still sees it as it left it
      obtain ⟨v, hv, hsees⟩ := h.stopping t _ old ht rfl
      obtain rfl : v = w := Option.some.inj (hv.symm.trans hw)
      exact h.advance hlocks ht rfl hw { v with active := false } id _ script rfl ⟨hsees, rfl⟩
  | @notify t old closing script w ht hw =>
      obtain ⟨v, hv, hthread, hactive⟩ := h.stopping t _ old ht rfl
      obtain rfl : v = w := Option.some.inj (hv.symm.trans hw)
      rcases v.notify_cases with ⟨⟨notified, hstage⟩, heq⟩ | ⟨hother, heq⟩ <;> rw [heq]
      · have hrunning : v.Running := by rw [PeriodicWorker.Running, hstage]; simp
        exact h.advance hlocks ht rfl hw _ (fun _ => hrunning) _ script rfl
          ⟨by simp, hactive, by simp⟩
      · exact h.advance hlocks ht rfl hw _ id _ script rfl ⟨hthread, hactive, hother false⟩
  | @join t old closing script w ht hw hexited =>
      exact h.leave ht rfl hw (fun hrunning => hrunning.2 hexited) _ script
        (by cases closing <;> rfl)
  | @single t before c stage script ht hsingle hmap hflusher =>
      have hcalled : (s.applyCall t c).Owned := ⟨h.running, h.stopping⟩
      cases hsingle <;> exact hcalled.setThread ht rfl _ script rfl

end Owned

/-! ## Runs -/

variable {registry : Registry φ ε} {scripts : List (List (ThreadCall φ ε))}
  {s : FlusherSystem φ ε}

theorem initial_thread {t : ℕ} {th : ApiThread φ ε}
    (ht : (initial registry scripts).threads[t]? = some th) :
    ∃ script, scripts[t]? = some script ∧ th = ⟨.between, script⟩ := by
  rw [initial, List.getElem?_map] at ht
  obtain ⟨script, hscript, rfl⟩ := Option.map_eq_some_iff.mp ht
  exact ⟨script, hscript, rfl⟩

theorem locks_initial (registry : Registry φ ε) (scripts : List (List (ThreadCall φ ε))) :
    (initial registry scripts).Locks := by
  have houtside (t : ℕ) : (initial registry scripts).flushIndex (.thread t) = none ∧
      (initial registry scripts).destroying t = none := by
    cases ht : (initial registry scripts).threads[t]? with
    | none =>
        rw [flushIndex, destroying, ht, Option.bind_none, Option.bind_none]
        exact ⟨rfl, rfl⟩
    | some th =>
        obtain ⟨script, -, rfl⟩ := initial_thread ht
        rw [flushIndex_thread ht, destroying_thread ht]
        exact ⟨rfl, rfl⟩
  refine ⟨?_, ?_, ?_⟩
  · intro i w hw
    cases hw
  · intro h
    refine iff_of_false ?_ (Option.some_ne_none h).symm
    cases h with
    | worker i => exact Bool.false_ne_true
    | thread t =>
        dsimp only
        rw [(houtside t).1]
        exact Bool.false_ne_true
  · intro t
    refine iff_of_false ?_ (Option.some_ne_none t).symm
    dsimp only
    rw [(houtside t).2]
    exact Bool.false_ne_true

theorem owned_initial (registry : Registry φ ε) (scripts : List (List (ThreadCall φ ε))) :
    (initial registry scripts).Owned := by
  constructor
  · intro i w hw
    cases hw
  · intro t th old ht hold
    obtain ⟨script, -, rfl⟩ := initial_thread ht
    cases hold

variable [FormatterBase φ]

/-- Both invariants hold of every state that can be reached. -/
theorem guarded_of_run {acts : List FlusherAct}
    (hrun : Runs.partialRun act (initial registry scripts) acts = some s) : s.Locks ∧ s.Owned := by
  refine Runs.partialRun_invariant (motive := fun s => s.Locks ∧ s.Owned) ?_
    ⟨locks_initial registry scripts, owned_initial registry scripts⟩ hrun
  rintro s a s' ⟨hlocks, howned⟩ hact
  exact ⟨hlocks.step (step_of_act hact), howned.step hlocks (step_of_act hact)⟩

end FlusherSystem

/-! ## Without a flusher -/

def RegistrySection.isFlushEvery : RegistrySection φ ε → Bool
  | .call (.flushEvery _) => true
  | _ => false

def Holder.isWorker : Holder → Bool
  | .worker _ => true
  | .thread _ => false

namespace FlusherSystem

/-- How many calls of `flush_every` have started. -/
def flushEveries (s : FlusherSystem φ ε) : ℕ := s.sections.countP fun p => p.2.isFlushEvery

def flushedByWorkers (s : FlusherSystem φ ε) : List (Holder × Addr) :=
  s.flushed.filter fun p => p.1.isWorker

/-- No worker runs, and none has flushed anything since. -/
structure Halted (flushes : List (Holder × Addr)) (s : FlusherSystem φ ε) : Prop where
  stopped : ∀ (i : ℕ) (w : PeriodicWorker), s.workers[i]? = some w → ¬ w.Running
  noFlusher : s.periodicFlusher = none
  flushed : s.flushedByWorkers = flushes

section Halted

variable {s s' : FlusherSystem φ ε} {move : FlusherAct} {flushes : List (Holder × Addr)}

theorem flushIndex_replaceFlusher {t : ℕ} {th : ApiThread φ ε} (ht : s.threads[t]? = some th)
    (hbefore : th.stage = .between) (script : List (ThreadCall φ ε)) (replacement : Option ℕ)
    (closing : Bool) (h : Holder) :
    (s.replaceFlusher t script replacement closing).flushIndex h = s.flushIndex h := by
  rcases replaceFlusher_cases s t script replacement closing with
    ⟨old, w, -, -, -, heq⟩ | ⟨-, heq⟩ <;> rw [heq]
  · exact flushIndex_setThread_same (s := { s with
      periodicFlusher := replacement, flusherMutex := some t }) ht (by rw [hbefore]; rfl) script h
  · exact flushIndex_setThread_same (s := { s with periodicFlusher := replacement }) ht
      (by rw [hbefore]; cases closing <;> rfl) script h

theorem replaceFlusher_same (s : FlusherSystem φ ε) (t : ℕ) (script : List (ThreadCall φ ε))
    (replacement : Option ℕ) (closing : Bool) :
    let s' := s.replaceFlusher t script replacement closing
    s'.registry = s.registry ∧ s'.sections = s.sections ∧ s'.flushed = s.flushed ∧
      s'.loggerMapMutex = s.loggerMapMutex := by
  intro s'
  simp only [s', replaceFlusher]
  split <;> exact ⟨rfl, rfl, rfl, rfl⟩

/-- The destructor starts no thread. -/
theorem Halted.setWorker (h : s.Halted flushes) {i : ℕ} {w : PeriodicWorker}
    (hw : s.workers[i]? = some w) (w' : PeriodicWorker) (hrunning : w'.Running → w.Running) :
    (s.setWorker i w').Halted flushes := by
  refine ⟨?_, h.noFlusher, h.flushed⟩
  intro j v hv
  rw [workers_setWorker hw] at hv
  split_ifs at hv
  · obtain rfl := Option.some.inj hv
    exact fun hv' => h.stopped i w hw (hrunning hv')
  · exact h.stopped j v hv

variable [FormatterBase φ]

theorem sections_of_step (hstep : s.Step move s') : ∃ added, s'.sections = s.sections ++ added := by
  cases hstep with
  | flushEvery => exact ⟨_, (replaceFlusher_same _ _ _ _ _).2.1⟩
  | shutdown => exact ⟨_, (replaceFlusher_same _ _ _ _ _).2.1⟩
  | enterWorker => exact ⟨_, rfl⟩
  | enterThread => exact ⟨_, rfl⟩
  | single => exact ⟨_, rfl⟩
  | _ => exact ⟨[], (List.append_nil _).symm⟩

theorem flushEveries_le (hstep : s.Step move s') : s.flushEveries ≤ s'.flushEveries := by
  obtain ⟨added, heq⟩ := sections_of_step hstep
  rw [flushEveries, flushEveries, heq, List.countP_append]
  exact Nat.le_add_right _ _

/-- Only `flush_every` starts a worker. -/
theorem Halted.step (h : s.Halted flushes) (hstep : s.Step move s')
    (hcount : s'.flushEveries = s.flushEveries) : s'.Halted flushes := by
  cases hstep with
  | @recheck move i w hw hstage hlocked hnotified =>
      -- A step of a worker is one of a worker that runs, and none does.
      refine absurd ?_ (h.stopped i w hw)
      rcases hstage with heq | ⟨_, heq⟩ <;> rw [PeriodicWorker.Running, heq] <;> simp
  | @timeUp i w hw hstage hlocked =>
      obtain ⟨notified, hstage⟩ := hstage
      exact absurd (by rw [PeriodicWorker.Running, hstage]; simp) (h.stopped i w hw)
  | @enterWorker i w hw hstage hfree =>
      exact absurd (by rw [PeriodicWorker.Running, hstage]; simp) (h.stopped i w hw)
  | @flushWorker i next w a hw hstage hnext =>
      exact absurd (by rw [PeriodicWorker.Running, hstage]; simp) (h.stopped i w hw)
  | @leaveWorker i next w hw hstage hnext =>
      exact absurd (by rw [PeriodicWorker.Running, hstage]; simp) (h.stopped i w hw)
  | enterThread => exact ⟨h.stopped, h.noFlusher, h.flushed⟩
  | flushThread =>
      refine ⟨h.stopped, h.noFlusher, ?_⟩
      rw [← h.flushed, flushedByWorkers, flushedByWorkers]
      exact List.filter_append .. |>.trans (List.append_nil _)
  | leaveThread => exact ⟨h.stopped, h.noFlusher, h.flushed⟩
  | @flushEvery t interval script ht hfree =>
      -- Another `flush_every` would count.
      rw [flushEveries, (replaceFlusher_same _ _ _ _ _).2.1] at hcount
      change (s.sections ++ [_]).countP _ = _ at hcount
      rw [List.countP_append, flushEveries] at hcount
      exact absurd hcount (by simp [RegistrySection.isFlushEvery])
  | @shutdown t script ht hfree =>
      have hnone : (s.applyReset t).joinableFlusher = none := by
        rw [joinableFlusher]
        change Option.filter _ s.periodicFlusher = none
        rw [h.noFlusher]
        rfl
      rw [replaceFlusher, hnone]
      exact ⟨h.stopped, rfl, h.flushed⟩
  | @deactivate t old closing script w ht hw hlocked =>
      obtain ⟨hstopped, hnone, hflushed⟩ := h.setWorker hw { w with active := false } id
      exact ⟨hstopped, hnone, hflushed⟩
  | @notify t old closing script w ht hw =>
      have hnotified : w.notify.Running → w.Running := by
        rcases w.notify_cases with ⟨⟨notified, hstage⟩, -⟩ | ⟨-, heq⟩
        · intro _
          rw [PeriodicWorker.Running, hstage]
          simp
        · rw [heq]
          exact id
      obtain ⟨hstopped, hnone, hflushed⟩ := h.setWorker hw w.notify hnotified
      exact ⟨hstopped, hnone, hflushed⟩
  | join => exact ⟨h.stopped, h.noFlusher, h.flushed⟩
  | single => exact ⟨h.stopped, h.noFlusher, h.flushed⟩

end Halted

variable [FormatterBase φ] {registry : Registry φ ε} {scripts : List (List (ThreadCall φ ε))}
  {s : FlusherSystem φ ε}

/-- The registry's own record of a flusher. -/
theorem flusher_of_run {acts : List FlusherAct}
    (hrun : Runs.partialRun act (initial registry scripts) acts = some s)
    (hregistry : registry.periodicFlusher = none) :
    s.periodicFlusher.isSome = s.registry.periodicFlusher.isSome := by
  refine Runs.partialRun_invariant (motive := fun s : FlusherSystem φ ε =>
    s.periodicFlusher.isSome = s.registry.periodicFlusher.isSome) ?_ ?_ hrun
  · intro s a s' h hact
    cases step_of_act hact with
    | flushEvery ht hfree =>
        rw [replaceFlusher]
        split <;> rfl
    | shutdown ht hfree =>
        rw [replaceFlusher]
        split <;> rfl
    | single ht hsingle hmap hflusher => exact h.trans (congrArg Option.isSome hflusher.symm)
    | _ => exact h
  · change Option.isSome none = registry.periodicFlusher.isSome
    rw [hregistry]

/-- Whenever no call that replaces it is under way, only the worker that `periodic_flusher_`
points to runs.  If the registry has none, which is so after a `shutdown`, no worker flushes a
logger before the next `flush_every`. -/
theorem silent_without_flusher {acts : List FlusherAct}
    (hrun : Runs.partialRun act (initial registry scripts) acts = some s)
    (hregistry : registry.periodicFlusher = none) (hfree : s.flusherMutex = none) :
    (∀ (i : ℕ) (w : PeriodicWorker), s.workers[i]? = some w → w.Running →
      s.periodicFlusher = some i) ∧
    (s.registry.periodicFlusher = none → ∀ (later : List FlusherAct) (s' : FlusherSystem φ ε),
      Runs.partialRun act s later = some s' → s'.flushEveries = s.flushEveries →
        s'.flushedByWorkers = s.flushedByWorkers) := by
  obtain ⟨hlocks, howned⟩ := guarded_of_run hrun
  have hcurrent (i : ℕ) (w : PeriodicWorker) (hw : s.workers[i]? = some w) (hrunning : w.Running) :
      s.periodicFlusher = some i := by
    refine (howned.running i w hw hrunning).resolve_right ?_
    rintro ⟨u, hu⟩
    exact Guards.not_inside (hfree ▸ hlocks.flusher) u (by rw [hu]; rfl)
  refine ⟨hcurrent, ?_⟩
  intro hnone later s' hlater hcount
  have hnone : s.periodicFlusher = none := by
    rw [← Option.isNone_iff_eq_none, ← Option.not_isSome, flusher_of_run hrun hregistry, hnone]
    rfl
  have hhalted : s.Halted s.flushedByWorkers := by
    refine ⟨?_, hnone, rfl⟩
    intro i w hw hrunning
    exact Option.some_ne_none i ((hcurrent i w hw hrunning).symm.trans hnone)
  -- once `flush_every` is called, nothing more is claimed
  have hend := Runs.partialRun_invariant (motive := fun s' : FlusherSystem φ ε =>
    s.flushEveries ≤ s'.flushEveries ∧
      (s'.flushEveries = s.flushEveries → s'.Halted s.flushedByWorkers)) ?_
    ⟨le_rfl, fun _ => hhalted⟩ hlater
  · exact (hend.2 hcount).flushed
  · rintro u a u' ⟨hle, hu⟩ hact
    have hstep := step_of_act hact
    have hle' := flushEveries_le hstep
    refine ⟨hle.trans hle', ?_⟩
    intro heq
    exact (hu (by omega)).step hstep (by omega)

/-- A formatter of which every clone is the same. -/
inductive PlainFormatter
  | full

instance : FormatterBase PlainFormatter := ⟨id⟩

def plainRegistry : Registry PlainFormatter Unit :=
  .new .full 0 1 { logger := fun _ => { name := [], sinks := [] }, formatter := fun _ => .full }

/-- One thread starts the flusher and shuts the registry down, another one flushes. -/
def startAndShutDown : List (List (ThreadCall PlainFormatter Unit)) :=
  [[.registry (.flushEvery 3), .registry .shutdown], [.flushAll]]

/-- Time is up just when the first thread shuts down, which then waits for the callback. -/
def lateShutdown : List FlusherAct :=
  [.thread 0, .worker 0, .timeout 0, .thread 0, .worker 0, .worker 0, .worker 0, .thread 0,
    .thread 1, .thread 0, .worker 0, .thread 0]

theorem silent_without_flusher_shutdown :
    ∃ s s', Runs.partialRun act (initial plainRegistry startAndShutDown) lateShutdown = some s ∧
      Runs.partialRun act s [.thread 1, .thread 1, .thread 0] = some s' ∧
      s'.flushedByWorkers = [(.worker 0, 0)] ∧ s'.flushedByWorkers = s.flushedByWorkers :=
  ⟨_, _, rfl, rfl, rfl,
    (@silent_without_flusher _ _ _ plainRegistry startAndShutDown _ lateShutdown rfl rfl rfl).2 rfl
      [.thread 1, .thread 1, .thread 0] _ rfl rfl⟩

end FlusherSystem

end Structlog
