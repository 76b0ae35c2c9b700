import Mathlib.Data.Prod.Lex
import Structlog.FlusherWorkers

/-!
# Every call returns

Threads wait for the mutexes and for the workers that they destroy.  Some thread can
always go on until all calls have returned (`canStep`), and without the clock there are
only finitely many steps (`rank_lt`): so the calls return even if no `wait_for` ever runs
into its timeout.  A worker that is being destroyed wakes because it has been notified,
and it cannot miss that: `active_` is changed under the mutex that `wait_for` gives back.

The first part of the rank is what the threads have still to do, which the workers do not
change; the second one is what there is to do before a worker waits again.
-/

namespace Structlog

open Lib

variable {φ ε : Type*}

/-- How many steps the call can still take, going through the map not counted. -/
def CallStage.weight : CallStage → ℕ
  | .between => 0
  | .flushing _ => 1
  -- `~periodic_worker` takes three steps, and `shutdown` two more
  | .deactivating _ _ => 5
  | .notifying _ _ => 4
  | .joining _ _ => 3
  | .dropping => 2
  | .resettingTp => 1

/-- How many loggers are left. -/
def CallStage.ahead (loggers : ℕ) : CallStage → ℕ
  | .flushing next => loggers - next
  | _ => 0

/-- How many steps the worker can take before it waits without a notification. -/
def WorkerStage.ahead (loggers : ℕ) : WorkerStage → ℕ
  | .noThread | .exited | .waiting false => 0
  | .locking | .waiting true => 1
  -- enters the map, flushes each logger, leaves, and takes its own mutex again
  | .callback => loggers + 3
  | .flushing next => loggers - next + 2

def ApiThread.weight (th : ApiThread φ ε) : ℕ := th.stage.weight + 6 * th.script.length

namespace FlusherSystem

/-- What the threads have still to do. -/
def calls (s : FlusherSystem φ ε) : ℕ := (s.threads.map ApiThread.weight).sum

def ahead (s : FlusherSystem φ ε) : ℕ :=
  (s.workers.map fun w => w.stage.ahead s.registered.length).sum +
    (s.threads.map fun th => th.stage.ahead s.registered.length).sum

def rank (s : FlusherSystem φ ε) : ℕ ×ₗ ℕ := toLex (s.calls, s.ahead)

/-- All calls have returned. -/
def Finished (s : FlusherSystem φ ε) : Prop :=
  ∀ th ∈ s.threads, th.stage = .between ∧ th.script = []

/-! ## The rank -/

section Rank

variable {s s' : FlusherSystem φ ε}

theorem rank_lt_of_calls (h : s'.calls < s.calls) : s'.rank < s.rank :=
  Prod.Lex.toLex_lt_toLex.mpr (.inl h)

theorem rank_lt_of_ahead (hcalls : s'.calls = s.calls) (h : s'.ahead < s.ahead) :
    s'.rank < s.rank :=
  Prod.Lex.toLex_lt_toLex.mpr (.inr ⟨hcalls, h⟩)

/-- A thread gets on with its call. -/
theorem calls_lt {t : ℕ} {th th' : ApiThread φ ε} (ht : s.threads[t]? = some th)
    (hthreads : s'.threads = s.threads.set t th') (hweight : th'.weight < th.weight) :
    s'.calls < s.calls := by
  have hsum := sum_map_set ht th' ApiThread.weight
  rw [calls, calls, hthreads]
  omega

/-- A worker moves by itself. -/
theorem rank_lt_of_worker {i : ℕ} {w : PeriodicWorker} (hw : s.workers[i]? = some w)
    (w' : PeriodicWorker) (hthreads : s'.threads = s.threads)
    (hworkers : s'.workers = s.workers.set i w') (hregistered : s'.registered = s.registered)
    (hahead : w'.stage.ahead s.registered.length < w.stage.ahead s.registered.length) :
    s'.rank < s.rank := by
  refine rank_lt_of_ahead ?_ ?_
  · rw [calls, calls, hthreads]
  · have hsum := sum_map_set hw w' fun w => w.stage.ahead s.registered.length
    rw [ahead, ahead, hthreads, hworkers, hregistered]
    omega

variable [FormatterBase φ]

/-- Without the clock every step lowers the rank. -/
theorem rank_lt {move : FlusherAct} (hstep : s.Step move s') (hquiet : move.quiet = true) :
    s'.rank < s.rank := by
  cases hstep with
  | @recheck move i w hw hstage hlocked hnotified =>
      -- a sleeping worker is woken by a notification: anything else is not quiet
      have hasleep := hnotified hquiet
      have hone : w.stage.ahead s.registered.length = 1 := by
        rcases hstage with heq | ⟨notified, heq⟩
        · rw [heq]
          rfl
        · cases notified with
          | false => exact absurd heq hasleep
          | true =>
              rw [heq]
              rfl
      refine rank_lt_of_worker hw w.recheck rfl rfl rfl ?_
      rcases w.recheck_cases with ⟨-, heq⟩ | ⟨-, heq⟩ <;> rw [heq, hone] <;> exact Nat.one_pos
  | timeUp => cases hquiet
  | @enterWorker i w hw hstage hfree =>
      refine rank_lt_of_worker hw { w with stage := .flushing 0 } rfl rfl rfl ?_
      rw [hstage]
      exact Nat.lt_succ_self _
  | @flushWorker i next w a hw hstage hnext =>
      refine rank_lt_of_worker hw { w with stage := .flushing (next + 1) } rfl rfl rfl ?_
      have hlt := (List.getElem?_eq_some_iff.mp hnext).1
      rw [hstage, WorkerStage.ahead, WorkerStage.ahead]
      omega
  | @leaveWorker i next w hw hstage hnext =>
      refine rank_lt_of_worker hw { w with locked := false, stage := .locking } rfl rfl rfl ?_
      rw [hstage, WorkerStage.ahead, WorkerStage.ahead]
      omega
  | @enterThread t script ht hfree =>
      refine rank_lt_of_calls (calls_lt ht rfl ?_)
      simp only [ApiThread.weight, CallStage.weight, List.length_cons]
      omega
  | @flushThread t next script a ht hnext =>
      have hlt := (List.getElem?_eq_some_iff.mp hnext).1
      refine rank_lt_of_ahead ?_ ?_
      · have hsum := sum_map_set ht ⟨.flushing (next + 1), script⟩ ApiThread.weight
        exact Nat.add_right_cancel hsum
      · have hsum := sum_map_set ht ⟨.flushing (next + 1), script⟩
          fun th => th.stage.ahead s.registered.length
        have hone : (CallStage.flushing (next + 1)).ahead s.registered.length <
            (CallStage.flushing next).ahead s.registered.length := by
          rw [CallStage.ahead, CallStage.ahead]
          omega
        rw [ahead, ahead]
        change _ + ((s.threads.set t _).map _).sum < _
        refine Nat.add_lt_add_left ?_ _
        change (List.map (fun th : ApiThread φ ε => th.stage.ahead s.registered.length) _).sum < _
        dsimp only at hsum
        omega
  | @leaveThread t next script ht hnext =>
      refine rank_lt_of_calls (calls_lt ht rfl ?_)
      simp only [ApiThread.weight, CallStage.weight]
      omega
  | @flushEvery t interval script ht hfree =>
      obtain ⟨stage, hthreads, hstage⟩ := threads_replaceFlusher
        ((s.applyCall t (.flushEvery interval)).construct interval) t script
        (some s.workers.length) false
      -- with an old worker to destroy, or without
      have hweight : stage.weight ≤ 5 := by
        rcases hstage with rfl | ⟨old, rfl⟩
        · decide
        · exact le_rfl
      refine rank_lt_of_calls (calls_lt ht hthreads ?_)
      simp only [ApiThread.weight, List.length_cons]
      omega
  | @shutdown t script ht hfree =>
      obtain ⟨stage, hthreads, hstage⟩ :=
        threads_replaceFlusher (s.applyReset t) t script none true
      have hweight : stage.weight ≤ 5 := by
        rcases hstage with rfl | ⟨old, rfl⟩
        · decide
        · exact le_rfl
      refine rank_lt_of_calls (calls_lt ht hthreads ?_)
      simp only [ApiThread.weight, List.length_cons]
      omega
  | @deactivate t old closing script w ht hw hlocked =>
      refine rank_lt_of_calls (calls_lt ht rfl ?_)
      simp only [ApiThread.weight, CallStage.weight]
      omega
  | @notify t old closing script w ht hw =>
      refine rank_lt_of_calls (calls_lt ht rfl ?_)
      simp only [ApiThread.weight, CallStage.weight]
      omega
  | @join t old closing script w ht hw hexited =>
      refine rank_lt_of_calls (calls_lt ht rfl ?_)
      cases closing <;> simp [ApiThread.weight, CallStage.weight, CallStage.afterFlusher]
  | @single t before c stage script ht hsingle hmap hflusher =>
      refine rank_lt_of_calls (calls_lt ht rfl ?_)
      cases hsingle <;> simp [ApiThread.weight, CallStage.weight]

end Rank

/-! ## Somebody can go on -/

section Progress

variable [FormatterBase φ] {s : FlusherSystem φ ε}

/-- Some step can be taken without the clock. -/
def CanStep (s : FlusherSystem φ ε) : Prop :=
  ∃ move : FlusherAct, move.quiet = true ∧ (s.act move).isSome = true

/-- Whoever is in `flush_all` can go on. -/
theorem canStep_of_flushing {holder : Holder} {next : ℕ} (h : s.flushIndex holder = some next) :
    s.CanStep := by
  cases holder with
  | thread t =>
      obtain ⟨⟨stage, script⟩, ht, hstage⟩ := Option.bind_eq_some_iff.mp h
      cases stage <;> cases hstage
      refine ⟨.thread t, rfl, ?_⟩
      rw [act, threadStep, ht]
      dsimp only
      split <;> rfl
  | worker i =>
      obtain ⟨⟨active, locked, stage⟩, hw, hstage⟩ := Option.bind_eq_some_iff.mp h
      cases stage <;> cases hstage
      refine ⟨.worker i, rfl, ?_⟩
      rw [act, workerStep, hw]
      dsimp only
      split <;> rfl

/-- A worker whose time is up gets the map as soon as it is free. -/
theorem canStep_of_callback (hfree : s.loggerMapMutex = none) {i : ℕ} {w : PeriodicWorker}
    (hw : s.workers[i]? = some w) (hstage : w.stage = .callback) : s.CanStep := by
  refine ⟨.worker i, rfl, ?_⟩
  rw [act, workerStep, hw]
  dsimp only
  rw [hstage]
  dsimp only
  rw [if_pos hfree]
  rfl

/-- Whoever destroys a worker that is not in its callback can go on, or the worker can. -/
theorem canStep_of_destroying (hlocks : s.Locks) (howned : s.Owned) {t old : ℕ} {th : ApiThread φ ε}
    (ht : s.threads[t]? = some th) (hold : th.stage.old = some old)
    (hunlocked : ∀ (i : ℕ) (w : PeriodicWorker), s.workers[i]? = some w → w.locked = false) :
    s.CanStep := by
  obtain ⟨w, hw, hsees⟩ := howned.stopping t th old ht hold
  have hlocked := hunlocked old w hw
  have houtside : ¬ w.InCallback := by
    rw [← hlocks.worker old w hw, hlocked]
    exact Bool.false_ne_true
  obtain ⟨stage, script⟩ := th
  cases stage with
  | deactivating old' closing =>
      obtain rfl : old' = old := Option.some.inj hold
      refine ⟨.thread t, rfl, ?_⟩
      simp [act, threadStep, ht, hw, hlocked]
  | notifying old' closing =>
      obtain rfl : old' = old := Option.some.inj hold
      refine ⟨.thread t, rfl, ?_⟩
      simp [act, threadStep, ht, hw]
  | joining old' closing =>
      obtain rfl : old' = old := Option.some.inj hold
      obtain ⟨hthread, hactive, hasleep⟩ := hsees
      cases hstage : w.stage with
      | noThread => exact absurd hstage hthread
      | exited =>
          refine ⟨.thread t, rfl, ?_⟩
          simp [act, threadStep, ht, hw, hstage]
      | locking =>
          refine ⟨.worker old', rfl, ?_⟩
          simp [act, workerStep, hw, hstage, hlocked]
      | waiting notified =>
          cases notified with
          | false => exact absurd hstage hasleep
          | true =>
              refine ⟨.worker old', rfl, ?_⟩
              simp [act, workerStep, hw, hstage, hlocked]
      | callback => exact absurd (.inl hstage) houtside
      | flushing next => exact absurd (.inr (by rw [hstage]; rfl)) houtside
  | _ => cases hold

/-- With all mutexes free every thread can go on. -/
theorem canStep_of_free (hmap : s.loggerMapMutex = none) (hflusher : s.flusherMutex = none)
    {t : ℕ} {th : ApiThread φ ε} (ht : s.threads[t]? = some th)
    (hindex : th.stage.flushIndex = none) (hold : th.stage.old = none)
    (hunfinished : ¬ (th.stage = .between ∧ th.script = [])) : s.CanStep := by
  refine ⟨.thread t, rfl, ?_⟩
  obtain ⟨stage, script⟩ := th
  cases stage with
  | between =>
      cases script with
      | nil => exact absurd ⟨rfl, rfl⟩ hunfinished
      | cons c script =>
          rw [act, threadStep, ht]
          dsimp only
          rw [startCall.eq_def]
          split <;> simp [hmap, hflusher]
  | dropping => simp [act, threadStep, ht, hmap]
  | resettingTp => simp [act, threadStep, ht]
  | flushing next => cases hindex
  | deactivating old closing => cases hold
  | notifying old closing => cases hold
  | joining old closing => cases hold

/-- As long as some call has not returned, somebody can go on. -/
theorem canStep (hlocks : s.Locks) (howned : s.Owned) (hunfinished : ¬ s.Finished) :
    s.CanStep := by
  -- from the innermost mutex outwards: its holder waits for nobody
  cases hmap : s.loggerMapMutex with
  | some holder =>
      obtain ⟨next, hnext⟩ := Option.isSome_iff_exists.mp ((hlocks.loggerMap holder).mpr hmap)
      exact canStep_of_flushing hnext
  | none =>
      by_cases hcallback : ∃ (i : ℕ) (w : PeriodicWorker), s.workers[i]? = some w ∧
          w.stage = .callback
      · obtain ⟨i, w, hw, hstage⟩ := hcallback
        exact canStep_of_callback hmap hw hstage
      · -- so that no worker holds its own mutex
        have hunlocked (i : ℕ) (w : PeriodicWorker) (hw : s.workers[i]? = some w) :
            w.locked = false := by
          rw [← Bool.not_eq_true, hlocks.worker i w hw]
          rintro (hstage | hindex)
          · exact hcallback ⟨i, w, hw, hstage⟩
          · refine Guards.not_inside (hmap ▸ hlocks.loggerMap) (.worker i) ?_
            rw [flushIndex_worker hw]
            exact hindex
        cases hflusher : s.flusherMutex with
        | some t =>
            obtain ⟨old, hold⟩ := Option.isSome_iff_exists.mp ((hlocks.flusher t).mpr hflusher)
            obtain ⟨th, ht, hold⟩ := Option.bind_eq_some_iff.mp hold
            exact canStep_of_destroying hlocks howned ht hold hunlocked
        | none =>
            rw [Finished] at hunfinished
            push Not at hunfinished
            obtain ⟨th, hmem, hth⟩ := hunfinished
            obtain ⟨t, ht⟩ := List.mem_iff_getElem?.mp hmem
            refine canStep_of_free hmap hflusher ht ?_ ?_ fun h => hth h.1 h.2
            · rw [← flushIndex_thread ht, ← Option.not_isSome_iff_eq_none]
              exact Guards.not_inside (hmap ▸ hlocks.loggerMap) (.thread t)
            · rw [← destroying_thread ht, ← Option.not_isSome_iff_eq_none]
              exact Guards.not_inside (hflusher ▸ hlocks.flusher) t

end Progress

/-! ## Runs -/

/-- However the threads have been interleaved so far: without any timeout or spurious wakeup
they cannot go on for ever, and they come to a halt only when every call has returned. -/
theorem calls_return [FormatterBase φ] {registry : Registry φ ε}
    {scripts : List (List (ThreadCall φ ε))} {s : FlusherSystem φ ε} {acts : List FlusherAct}
    (hrun : Runs.partialRun act (initial registry scripts) acts = some s) :
    (∀ (states : ℕ → FlusherSystem φ ε) (moves : ℕ → FlusherAct), states 0 = s →
      (∀ n, (states n).act (moves n) = some (states (n + 1))) → ∃ n, ¬ (moves n).quiet = true) ∧
    ∀ (later : List FlusherAct) (s' : FlusherSystem φ ε), Runs.partialRun act s later = some s' →
      (∀ move : FlusherAct, move.quiet = true → s'.act move = none) → s'.Finished := by
  have hguarded := guarded_of_run hrun
  have hstep (s : FlusherSystem φ ε) (move : FlusherAct) (s' : FlusherSystem φ ε)
      (h : s.Locks ∧ s.Owned) (hact : s.act move = some s') : s'.Locks ∧ s'.Owned :=
    ⟨h.1.step (step_of_act hact), h.2.step h.1 (step_of_act hact)⟩
  constructor
  · intro states moves hstart hsteps
    exact Runs.not_forever hstep (C := fun move : FlusherAct => move.quiet = true)
      (fun s move s' _ hquiet hact => rank_lt (step_of_act hact) hquiet) (hstart ▸ hguarded)
      moves hsteps
  · intro later s' hlater hhalt
    obtain ⟨hlocks, howned⟩ := Runs.partialRun_invariant hstep hguarded hlater
    -- a halt with calls left would be a state in which somebody can go on
    by_contra hunfinished
    obtain ⟨move, hquiet, hsome⟩ := canStep hlocks howned hunfinished
    rw [hhalt move hquiet] at hsome
    cases hsome

theorem calls_return_shutdown :
    ∃ s s', Runs.partialRun act (initial plainRegistry startAndShutDown) lateShutdown = some s ∧
      Runs.partialRun act s [.thread 1, .thread 1, .thread 0, .thread 0] = some s' ∧
      s'.Finished := by
  refine ⟨_, _, rfl, rfl,
    (@calls_return _ _ _ plainRegistry startAndShutDown _ lateShutdown rfl).2
      [.thread 1, .thread 1, .thread 0, .thread 0] _ rfl ?_⟩
  intro move hquiet
  match move with
  | .thread 0 | .thread 1 | .thread (_ + 2) => rfl
  | .worker 0 | .worker (_ + 1) => rfl
  | .timeout _ | .spurious _ => cases hquiet

end FlusherSystem

end Structlog
