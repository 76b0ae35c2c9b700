import Mathlib.Algebra.Order.BigOperators.Group.List
import Structlog.ThreadPool

/-!
# Progress of the thread pool

Producers, workers and the destructor wait for each other: a post that blocks for
room, a worker for a message, the destructor for room for its own messages and
then for the workers.  With at least one place in the queue one of them can always
move on (`Conserved.canStep`): whoever waits for room waits for a full queue, which
some worker can empty, and whoever waits for a worker waits for one that has a
message to come.

`max_items` is the only argument that is not checked.  With `0` places, and with the
size for which the ring's own size wraps around to `0`, a worker never gets a
message, and the pool comes to a halt before the destructor is through
(`Barren.comes_to_halt`).

Every step also lowers `Pool.rank`, which counts what is still to be posted, queued
and handed on (`Conserved.rank_lt`), so that from every state the pool comes to its
end (`Conserved.comes_to_end`), and no run is longer than the rank of its start
(`thread_pool_comes_to_end`).  `comes_to_end_overrun` puts a long run in front of
that: a producer that never waits posts everything before a worker moves, and what
the queue has no room for is discarded.  With more than `2 ^ 64` of it the overrun
counter, a `size_t`, no longer tells how many were (`thread_pool_counter_wraps`).
-/

namespace Structlog

open Lib

namespace Pool

variable {μ : Type*}

/-- The producers have posted everything and the destructor has returned. -/
def Finished (s : Pool μ) : Prop := s.pending.all List.isEmpty = true ∧ s.shutdown = .done

/-- Some step can be taken. -/
def CanStep (s : Pool μ) : Prop := ∃ a s', s.act a = some s'

theorem not_canStep_iff {s : Pool μ} : ¬ s.CanStep ↔ ∀ a, s.act a = none := by
  simp [CanStep, Option.eq_none_iff_forall_ne_some]

/-! ## What lets a step be taken -/

/-- With room in the queue the next post of a producer goes through. -/
theorem canStep_of_pending {s : Pool μ} (hroom : s.q.full = false)
    (hpending : ¬ s.pending.all List.isEmpty = true) : s.CanStep := by
  rw [List.all_eq_true] at hpending
  push Not at hpending
  obtain ⟨script, hmem, hne⟩ := hpending
  obtain ⟨p, hp, hscript⟩ := List.mem_iff_getElem.mp hmem
  cases script with
  | nil => exact absurd rfl hne
  | cons post rest =>
      obtain ⟨m, policy⟩ := post
      have hget : s.pending[p]? = some ((m, policy) :: rest) := by
        rw [List.getElem?_eq_getElem hp, hscript]
      have hposted : s.postAsyncMsg (.work m) policy = some (s.push (.work m)) := by
        cases policy <;> simp [postAsyncMsg, hroom]
      refine ⟨.post p, ?_⟩
      rw [act, hget]
      dsimp only
      rw [hposted]
      exact ⟨_, rfl⟩

/-- A worker that has a message deals with it. -/
theorem canStep_of_holding {s : Pool μ} {w : Worker μ} {m : PoolMsg μ} (hmem : w ∈ s.workers)
    (hstate : w.state = .holding m) : s.CanStep := by
  obtain ⟨i, hi⟩ := List.mem_iff_getElem?.mp hmem
  obtain ⟨state, count⟩ := w
  obtain rfl : state = .holding m := hstate
  refine ⟨.process i, ?_⟩
  rw [act, hi]
  cases m with
  | work m => exact ⟨_, rfl⟩
  | terminate => exact ⟨_, rfl⟩

/-- A worker that waits takes a message, if there is one. -/
theorem canStep_of_waiting {s : Pool μ} {w : Worker μ} (hmem : w ∈ s.workers)
    (hstate : w.state = .waiting) (hempty : s.q.empty = false) : s.CanStep := by
  obtain ⟨i, hi⟩ := List.mem_iff_getElem?.mp hmem
  obtain ⟨state, count⟩ := w
  obtain rfl : state = .waiting := hstate
  refine ⟨.dequeue i, ?_⟩
  rw [act, hi]
  dsimp only
  rw [if_neg (by simp [hempty])]
  exact ⟨_, rfl⟩

/-! ## With a place in the queue -/

namespace Conserved

variable {scripts : List (List (μ × OverflowPolicy))} {s : Pool μ} {queued : List (Posted μ)}
  {terminates : ℕ} {dropped : List (Posted μ)}

/-- A worker that waits has not taken its message to terminate. -/
theorem taken_lt_of_waiting (h : Conserved scripts s queued terminates dropped) {w : Worker μ}
    (hmem : w ∈ s.workers) (hstate : w.state = .waiting) : s.taken < s.workers.length := by
  have hzero : w.terminates = 0 := by
    rw [h.worker w hmem, if_neg]
    simp [ended, hstate]
  have hle : ∀ w ∈ s.workers, w.terminates ≤ 1 := by
    intro w hw
    rw [h.worker w hw]
    split_ifs <;> omega
  have hlt := List.sum_lt_sum Worker.terminates (fun _ => 1) hle ⟨w, hmem, by omega⟩
  simpa [taken] using hlt

/-- Once every worker has exited the destructor has posted all its messages. -/
theorem left_eq_zero (h : Conserved scripts s queued terminates dropped)
    (hexited : ∀ w ∈ s.workers, w.state = .exited) (hstart : s.shutdown ≠ .notStarted) :
    s.left = 0 := by
  have htally := h.tally
  rw [if_neg hstart, h.taken_of_exited hexited] at htally
  omega

/-- A queue in which there is room for something and which is full has something. -/
theorem empty_of_full (h : Conserved scripts s queued terminates dropped)
    (hroom : 1 < s.q.maxItems) (hfull : s.q.full = true) : s.q.empty = false := by
  have hsize := h.wf.full_iff_size.mp hfull
  rw [← Bool.not_eq_true, h.wf.empty_iff_size]
  omega

/-- The workers are gone, so that the destructor has only to join them. -/
theorem canStep_of_exited (h : Conserved scripts s queued terminates dropped)
    (hexited : ∀ w ∈ s.workers, w.state = .exited) (hworkers : s.workers ≠ [])
    (hunfinished : ¬ s.Finished) : s.CanStep := by
  have hpos : s.workers.length ≠ 0 := fun hzero => hworkers (List.length_eq_zero_iff.mp hzero)
  cases hshutdown : s.shutdown with
  | notStarted =>
      have htally := h.tally
      rw [if_pos hshutdown, h.taken_of_exited hexited] at htally
      omega
  | posting left =>
      have hleft := h.left_eq_zero hexited (by simp [hshutdown])
      rw [Pool.left, hshutdown] at hleft
      obtain rfl : left = 0 := hleft
      refine ⟨.join, _, if_pos ⟨hshutdown, List.all_eq_true.mpr ?_⟩⟩
      intro w hw
      simp [hexited w hw]
  | done =>
      have hpending := h.stopped (by simp [hshutdown])
      have hall : s.pending.all List.isEmpty = true := by
        apply List.all_eq_true.mpr
        intro script hscript
        simpa using List.flatMap_eq_nil_iff.mp hpending script hscript
      exact absurd ⟨hall, hshutdown⟩ hunfinished

/-- A worker waits and nothing is queued, so that there is room for whoever posts. -/
theorem canStep_of_idle (h : Conserved scripts s queued terminates dropped)
    (hnotFull : s.q.full = false) (hempty : s.q.empty = true) {w : Worker μ}
    (hmem : w ∈ s.workers) (hstate : w.state = .waiting) (hunfinished : ¬ s.Finished) :
    s.CanStep := by
  by_cases hpending : s.pending.all List.isEmpty = true
  · cases hshutdown : s.shutdown with
    | notStarted => exact ⟨.shutDown, _, if_pos ⟨hshutdown, hpending⟩⟩
    | posting left =>
        cases left with
        | succ left =>
            have hposted : s.postAsyncMsg .terminate .block = some (s.push .terminate) := by
              simp [postAsyncMsg, hnotFull]
            refine ⟨.terminate, ?_⟩
            rw [act, hshutdown]
            dsimp only
            rw [hposted]
            exact ⟨_, rfl⟩
        | zero =>
            -- All messages to terminate have been taken, and none by this worker.
            have hqueue := congrArg List.length h.queue
            rw [h.wf.empty_iff.mp hempty] at hqueue
            simp only [List.length_nil, List.length_append, List.length_map,
              List.length_replicate] at hqueue
            have htally := h.tally
            rw [if_neg (by simp [hshutdown]), Pool.left, hshutdown] at htally
            have := h.taken_lt_of_waiting hmem hstate
            dsimp only at htally
            omega
    | done => exact absurd ⟨hpending, hshutdown⟩ hunfinished
  · exact canStep_of_pending hnotFull hpending

/-- Nobody waits for ever. -/
theorem canStep (h : Conserved scripts s queued terminates dropped) (hroom : 1 < s.q.maxItems)
    (hworkers : s.workers ≠ []) (hunfinished : ¬ s.Finished) : s.CanStep := by
  by_cases hexited : ∀ w ∈ s.workers, w.state = .exited
  · exact h.canStep_of_exited hexited hworkers hunfinished
  · push Not at hexited
    obtain ⟨w, hmem, hne⟩ := hexited
    cases hstate : w.state with
    | exited => exact absurd hstate hne
    | holding m => exact canStep_of_holding hmem hstate
    | waiting =>
        cases hempty : s.q.empty with
        | false => exact canStep_of_waiting hmem hstate hempty
        | true =>
            have hnotFull : s.q.full = false := by
              rw [← Bool.not_eq_true]
              intro hfull
              exact absurd (h.empty_of_full hroom hfull) (by simp [hempty])
            exact h.canStep_of_idle hnotFull hempty hmem hstate hunfinished

end Conserved

/-- The size of the ring stays as the constructor has made it. -/
theorem Step.maxItems {s s' : Pool μ} (h : s.Step s') : s'.q.maxItems = s.q.maxItems := by
  cases h with
  | post => exact CircularQ.maxItems_pushBack ..
  | takeWork => rfl
  | takeTerminate => rfl
  | deliver => rfl
  | exit => rfl
  | shutDown => rfl
  | terminate => exact CircularQ.maxItems_pushBack ..
  | join => rfl

/-- What has been discarded stays so. -/
theorem Step.discarded_prefix {s s' : Pool μ} (h : s.Step s') : s.discarded <+: s'.discarded := by
  cases h with
  | post => exact List.prefix_append _ _
  | takeWork => exact List.prefix_rfl
  | takeTerminate => exact List.prefix_rfl
  | deliver => exact List.prefix_rfl
  | exit => exact List.prefix_rfl
  | shutDown => exact List.prefix_rfl
  | terminate => exact List.prefix_append _ _
  | join => exact List.prefix_rfl

/-- What the producers and the destructor have still to do. -/
def remaining (s : Pool μ) : ℕ :=
  (s.pending.map List.length).sum +
    match s.shutdown with
    | .notStarted => s.workers.length + 1
    | .posting left => left
    | .done => 0

/-! ## How long a run can be -/

/-- Whether the worker has a message to deal with. -/
def busyness (w : Worker μ) : ℕ :=
  match w.state with
  | .holding _ => 1
  | _ => 0

/-- What is left to do: a message that is still to be posted is posted, taken and dealt
with, and the destructor joins the workers. -/
def rank (s : Pool μ) : ℕ :=
  3 * s.remaining + 2 * s.q.toList.length + (s.workers.map busyness).sum +
    match s.shutdown with
    | .done => 0
    | _ => 1

namespace Conserved

variable {scripts : List (List (μ × OverflowPolicy))} {s s' : Pool μ} {queued : List (Posted μ)}
  {terminates : ℕ} {dropped : List (Posted μ)}

/-- A push makes the queue longer by one message at most. -/
theorem length_push_le (h : Conserved scripts s queued terminates dropped) (m : PoolMsg μ) :
    (s.push m).q.toList.length ≤ s.q.toList.length + 1 := by
  rw [push, (h.wf.toList_pushBack m).1, BoundedFifo.push, List.length_drop, List.length_append]
  exact Nat.sub_le _ _

/-- Every step brings the pool nearer to its end. -/
theorem rank_lt (h : Conserved scripts s queued terminates dropped) (hstep : s.Step s') :
    s'.rank < s.rank := by
  cases hstep with
  | @post p m policy rest hpending _ =>
      have hsum := sum_map_set hpending rest List.length
      have hlength := h.length_push_le (.work m)
      simp only [rank, remaining]
      simp only [Pool.push] at hlength ⊢
      rw [List.length_cons] at hsum
      omega
  | @takeWork i count m hworker hempty _ =>
      have hbusy := sum_map_set hworker ⟨.holding (.work m), count⟩ busyness
      have hqueue := congrArg List.length (h.wf.toList_eq_cons hempty)
      simp only [busyness, List.length_cons] at hbusy hqueue
      simp only [rank, remaining, setWorker, List.length_set]
      omega
  | @takeTerminate i count hworker hempty _ =>
      have hbusy := sum_map_set hworker ⟨.holding .terminate, count + 1⟩ busyness
      have hqueue := congrArg List.length (h.wf.toList_eq_cons hempty)
      simp only [busyness, List.length_cons] at hbusy hqueue
      simp only [rank, remaining, setWorker, List.length_set]
      omega
  | @deliver i count m hworker =>
      have hbusy := sum_map_set hworker ⟨.waiting, count⟩ busyness
      simp only [busyness] at hbusy
      simp only [rank, remaining, setWorker, List.length_set]
      omega
  | @exit i count hworker =>
      have hbusy := sum_map_set hworker ⟨.exited, count⟩ busyness
      simp only [busyness] at hbusy
      simp only [rank, remaining, setWorker, List.length_set]
      omega
  | shutDown hnot _ =>
      simp only [rank, remaining, hnot]
      simp
  | @terminate left hposting _ =>
      have hlength := h.length_push_le .terminate
      simp only [rank, remaining, hposting]
      simp only [Pool.push] at hlength ⊢
      omega
  | join hposting _ =>
      simp only [rank, remaining, hposting]
      simp

/-- From every state the pool comes to its end: a step can be taken until it has, and each
step lowers the rank. -/
theorem comes_to_end (h : Conserved scripts s queued terminates dropped)
    (hroom : 1 < s.q.maxItems) (hworkers : s.workers ≠ []) :
    ∃ acts t, s.run acts = some t ∧ t.Finished ∧ s.discarded <+: t.discarded := by
  obtain ⟨acts, t, hrun,
      ⟨⟨queued', terminates', dropped', ht⟩, hmax, hlength, hdiscarded⟩, hhalt⟩ :=
    Runs.partialRun_halts (motive := fun t : Pool μ =>
        (∃ queued' terminates' dropped', Conserved scripts t queued' terminates' dropped') ∧
          t.q.maxItems = s.q.maxItems ∧ t.workers.length = s.workers.length ∧
          s.discarded <+: t.discarded)
      (fun t a t' ⟨⟨_, _, _, ht⟩, hmax, hlength, hdiscarded⟩ hact => by
        have hstep := step_of_act hact
        exact ⟨ht.step hstep, hstep.maxItems.trans hmax, hstep.length_workers.trans hlength,
          hdiscarded.trans hstep.discarded_prefix⟩)
      (fun t a t' ⟨⟨_, _, _, ht⟩, _⟩ hact => ht.rank_lt (step_of_act hact))
      ⟨⟨_, _, _, h⟩, rfl, rfl, List.prefix_rfl⟩
  have hworkers' : t.workers ≠ [] := by
    intro hnil
    rw [hnil, List.length_nil] at hlength
    exact hworkers (List.length_eq_zero_iff.mp hlength.symm)
  refine ⟨acts, t, hrun, ?_, hdiscarded⟩
  by_contra hunfinished
  exact not_canStep_iff.mpr hhalt (ht.canStep (hmax ▸ hroom) hworkers' hunfinished)

end Conserved

/-! ## A producer that never waits -/

/-- It posts all it has to, while the workers do nothing. -/
theorem run_overrunning {script : List (Posted μ × OverflowPolicy)} {s : Pool μ}
    (hpending : s.pending = [script]) (hpolicy : ∀ post ∈ script, post.2 = .overrunOldest) :
    ∃ t, s.run (List.replicate script.length (.post 0)) = some t ∧ t.pending = [[]] ∧
      t.posted.length = s.posted.length + script.length ∧ t.workers = s.workers ∧
      t.delivered = s.delivered := by
  induction script generalizing s with
  | nil => exact ⟨s, rfl, hpending, rfl, rfl, rfl⟩
  | cons post script ih =>
      obtain ⟨m, policy⟩ := post
      obtain rfl : policy = .overrunOldest := hpolicy _ List.mem_cons_self
      have hact : s.act (.post 0) = some { s.push (.work m) with
          pending := s.pending.set 0 script
          posted := s.posted ++ [m] } := by
        rw [act, hpending]
        rfl
      obtain ⟨t, hrun, hend, hposted, hworkers, hdelivered⟩ :=
        @ih { s.push (.work m) with
            pending := s.pending.set 0 script
            posted := s.posted ++ [m] }
          (show s.pending.set 0 script = [script] by rw [hpending]; rfl)
          (fun post hpost => hpolicy post (List.mem_cons_of_mem _ hpost))
      refine ⟨t, Runs.partialRun_cons hact hrun, hend, ?_, hworkers, hdelivered⟩
      simp only [hposted, List.length_append, List.length_cons, List.length_nil]
      omega

/-- All that the queue has no room for is discarded, and the pool still comes to its end. -/
theorem comes_to_end_overrun {qMaxItems threadsN : ℕ} (hpos : 0 < qMaxItems)
    (hq : qMaxItems + 1 < sizeT) (hthreads : threadsN ≠ 0) {script : List (μ × OverflowPolicy)}
    (hpolicy : ∀ post ∈ script, post.2 = .overrunOldest) :
    ∃ acts t, (initial qMaxItems threadsN [script]).run acts = some t ∧ t.shutdown = .done ∧
      script.length ≤ t.discarded.length + qMaxItems := by
  have hlength : (tagScript 0 script).length = script.length := List.length_mapIdx
  have htagged : ∀ post ∈ tagScript 0 script, post.2 = .overrunOldest := by
    intro post hpost
    obtain ⟨seq, hlt, rfl⟩ := List.mem_mapIdx.mp hpost
    exact hpolicy _ (List.getElem_mem hlt)
  obtain ⟨s, hposts, -, hposted, hworkers, hdelivered⟩ :=
    @run_overrunning μ (tagScript 0 script) (initial qMaxItems threadsN [script]) rfl htagged
  have hmax : s.q.maxItems = qMaxItems + 1 := by
    have hkeep := run_induction (motive := fun t => t.q.maxItems = (qMaxItems + 1) % sizeT)
      (fun t t' ht hstep => hstep.maxItems.trans ht) (show (initial qMaxItems threadsN
        [script]).q.maxItems = _ from rfl) hposts
    rw [hkeep, Nat.mod_eq_of_lt hq]
  obtain ⟨queued, terminates, dropped, hs⟩ := (Conserved.initial hq threadsN).run hposts
  have hne : s.workers ≠ [] := by
    rw [hworkers]
    exact fun hnil => hthreads ((List.replicate_eq_nil_iff _).mp hnil)
  -- Nothing has been delivered and no worker holds anything.
  have hheld : s.held = [] := by
    apply List.flatMap_eq_nil_iff.mpr
    intro w hw
    rw [hworkers] at hw
    rw [List.eq_of_mem_replicate hw]
    rfl
  have hconserved := hs.conserved.length_eq
  rw [hheld, hdelivered, hposted, hlength] at hconserved
  have hqueued := hs.wf.length_le
  rw [hs.queue, hmax] at hqueued
  have hdiscarded := congrArg List.length hs.discarded
  simp only [List.length_append, List.length_map, List.length_replicate, Pool.initial,
    List.length_nil] at hconserved hqueued hdiscarded
  obtain ⟨acts, t, hrun, hfinished, hprefix⟩ := hs.comes_to_end (by omega) hne
  refine ⟨List.replicate (tagScript 0 script).length (.post 0) ++ acts, t, ?_, hfinished.2, ?_⟩
  · exact Runs.partialRun_append hposts hrun
  · have := hprefix.length_le
    omega

/-- One producer with `2 ^ 64 + 1` posts that do not wait, and one place: the counter has
come back to a smaller number than was discarded. -/
theorem thread_pool_counter_wraps :
    ∃ acts s, Pool.new 1 1 [List.replicate (sizeT + 1) (0, OverflowPolicy.overrunOldest)] =
        .ok (initial 1 1 [List.replicate (sizeT + 1) (0, .overrunOldest)]) ∧
      (initial 1 1 [List.replicate (sizeT + 1) (0, .overrunOldest)]).run acts = some s ∧
      s.shutdown = .done ∧ s.discarded.length ≠ s.q.overrunCounter := by
  have hpolicy : ∀ post ∈ List.replicate (sizeT + 1) (0, OverflowPolicy.overrunOldest),
      post.2 = .overrunOldest := by
    intro post hpost
    rw [List.eq_of_mem_replicate hpost]
  obtain ⟨acts, s, hrun, hdone, hdiscarded⟩ := comes_to_end_overrun Nat.one_pos
    (show 1 + 1 < sizeT by decide) Nat.one_ne_zero hpolicy
  refine ⟨acts, s, rfl, hrun, hdone, ?_⟩
  obtain ⟨queued, terminates, dropped, hend⟩ :=
    (Conserved.initial (show 1 + 1 < sizeT by decide) 1).run hrun
  have hcounter : s.q.overrunCounter < sizeT := by
    rw [hend.counter]
    exact Nat.mod_lt _ (by decide)
  rw [List.length_replicate] at hdiscarded
  omega

/-! ## With none -/

/-- Nothing can be in the queue, and every worker waits. -/
structure Barren (s : Pool μ) : Prop where
  maxItems : s.q.maxItems ≤ 1
  head : s.q.head = 0
  tail : s.q.tail = 0
  workers : s.workers ≠ []
  waiting : ∀ w ∈ s.workers, w.state = .waiting
  shutdown : s.shutdown ≠ .done

namespace Barren

variable {s s' : Pool μ}

theorem initial {qMaxItems threadsN : ℕ} (hq : (qMaxItems + 1) % sizeT ≤ 1)
    (hthreads : threadsN ≠ 0) (scripts : List (List (μ × OverflowPolicy))) :
    Barren (Pool.initial qMaxItems threadsN scripts) where
  maxItems := hq
  head := rfl
  tail := rfl
  workers hnil := hthreads ((List.replicate_eq_nil_iff _).mp hnil)
  waiting w hw := by rw [List.eq_of_mem_replicate hw]
  shutdown := by simp [Pool.initial]

/-- A ring of at most one cell does not move. -/
theorem push (h : Barren s) (m : PoolMsg μ) : Barren (s.push m) := by
  have hq : (s.q.pushBack m).head = 0 ∧ (s.q.pushBack m).tail = 0 := by
    have hmax := h.maxItems
    rw [CircularQ.pushBack, h.head, h.tail]
    by_cases hpos : 0 < s.q.maxItems
    · have hone : s.q.maxItems = 1 := by omega
      simp [hone]
    · simp [hpos, h.head, h.tail]
  exact ⟨(CircularQ.maxItems_pushBack s.q m).trans_le h.maxItems, hq.1, hq.2, h.workers,
    h.waiting, h.shutdown⟩

/-- Only the producers and the destructor move, and they come nearer to the end. -/
theorem step (h : Barren s) (hstep : s.Step s') : Barren s' ∧ s'.remaining < s.remaining := by
  have hempty : s.q.empty = true := by simp [CircularQ.empty, h.head, h.tail]
  have hnone {i : ℕ} {w : Worker μ} (hw : s.workers[i]? = some w) (hne : w.state ≠ .waiting) :
      False := hne (h.waiting w (List.mem_of_getElem? hw))
  cases hstep with
  | @post p m policy rest hpending _ =>
      obtain ⟨hp, hget⟩ := List.getElem?_eq_some_iff.mp hpending
      have hsum := sum_map_set hpending rest List.length
      have hpush := h.push (.work m)
      refine ⟨⟨hpush.maxItems, hpush.head, hpush.tail, h.workers, h.waiting, h.shutdown⟩, ?_⟩
      simp only [remaining, Pool.push]
      rw [List.length_cons] at hsum
      omega
  | takeWork _ hnot => exact absurd hempty (by simp [hnot])
  | takeTerminate _ hnot => exact absurd hempty (by simp [hnot])
  | deliver hworker => exact (hnone hworker (by simp)).elim
  | exit hworker => exact (hnone hworker (by simp)).elim
  | shutDown hnot _ =>
      refine ⟨⟨h.maxItems, h.head, h.tail, h.workers, h.waiting, by simp⟩, ?_⟩
      simp only [remaining, hnot]
      omega
  | terminate hposting _ =>
      have hpush := h.push .terminate
      refine ⟨⟨hpush.maxItems, hpush.head, hpush.tail, h.workers, h.waiting, by simp⟩, ?_⟩
      simp only [remaining, hposting, Pool.push]
      omega
  | join _ hexited =>
      obtain ⟨w, hw⟩ := List.exists_mem_of_ne_nil _ h.workers
      exact absurd ((h.waiting w hw).symm.trans (hexited w hw)) (by simp)

/-- Sooner or later nobody can move, and the destructor is not through. -/
theorem comes_to_halt (h : Barren s) :
    ∃ acts t, s.run acts = some t ∧ ¬ t.Finished ∧ ¬ t.CanStep := by
  obtain ⟨acts, t, hrun, ht, hhalt⟩ := Runs.partialRun_halts (motive := Barren)
    (fun t a t' ht hact => (ht.step (step_of_act hact)).1)
    (fun t a t' ht hact => (ht.step (step_of_act hact)).2) h
  exact ⟨acts, t, hrun, fun hfinished => ht.shutdown hfinished.2, not_canStep_iff.mpr hhalt⟩

end Barren

/-- A queue that is full from the start stays so whatever is posted, and then the destructor
never gets through. -/
theorem full_of_new_full {qMaxItems threadsN : ℕ} {scripts : List (List (μ × OverflowPolicy))}
    {start s : Pool μ} {acts : List PoolAct}
    (hnew : Pool.new qMaxItems threadsN scripts = .ok start)
    (hfull : (CircularQ.new qMaxItems : CircularQ (PoolMsg μ)).full = true)
    (hrun : start.run acts = some s) : s.q.full = true ∧ s.shutdown ≠ .done := by
  obtain ⟨hthreads, rfl⟩ := new_eq_ok hnew
  have hone : (qMaxItems + 1) % sizeT = 1 := by
    have hring : (if 0 < (qMaxItems + 1) % sizeT then
        decide ((0 + 1) % ((qMaxItems + 1) % sizeT) = 0) else false) = true := hfull
    by_cases hpos : 0 < (qMaxItems + 1) % sizeT
    · rw [if_pos hpos] at hring
      exact (Nat.dvd_one.mp (Nat.dvd_of_mod_eq_zero (of_decide_eq_true hring)))
    · rw [if_neg hpos] at hring
      cases hring
  obtain ⟨hbarren, hmax⟩ := run_induction
    (motive := fun t => Barren t ∧ t.q.maxItems = (qMaxItems + 1) % sizeT)
    (fun t t' ht hstep => ⟨(ht.1.step hstep).1, hstep.maxItems.trans ht.2⟩)
    ⟨Barren.initial hone.le hthreads scripts, rfl⟩ hrun
  refine ⟨?_, hbarren.shutdown⟩
  rw [CircularQ.full, hmax, hone, hbarren.head, hbarren.tail]
  rfl

/-- Every state that the pool can reach before all is done has a step to go on with, if
and only if there is a place in the queue: `q_max_items` must not be `0`, nor the
value for which the size of the ring wraps around. -/
theorem thread_pool_progresses_iff {qMaxItems threadsN : ℕ} (hq : qMaxItems < sizeT)
    {scripts : List (List (μ × OverflowPolicy))} {start : Pool μ}
    (hnew : Pool.new qMaxItems threadsN scripts = .ok start) :
    (∀ acts s, start.run acts = some s → ¬ s.Finished → s.CanStep) ↔
      0 < qMaxItems ∧ qMaxItems + 1 < sizeT := by
  obtain ⟨hthreads, rfl⟩ := new_eq_ok hnew
  constructor
  · intro hprogress
    by_contra hsize
    have hmod : (qMaxItems + 1) % sizeT ≤ 1 := by
      rcases Nat.eq_zero_or_pos qMaxItems with rfl | hpos
      · exact Nat.mod_le _ _
      · have heq : qMaxItems + 1 = sizeT := by omega
        rw [heq, Nat.mod_self]
        exact Nat.zero_le _
    obtain ⟨acts, s, hrun, hunfinished, hstuck⟩ :=
      (Barren.initial hmod hthreads scripts).comes_to_halt
    exact hstuck (hprogress acts s hrun hunfinished)
  · rintro ⟨hpos, hlt⟩ acts s hrun hunfinished
    have hstart : Conserved scripts (initial qMaxItems threadsN scripts) [] 0 [] :=
      .initial hlt threadsN
    have hmax : s.q.maxItems = qMaxItems + 1 := by
      have hkeep := run_induction (motive := fun t => t.q.maxItems = (qMaxItems + 1) % sizeT)
        (fun t t' ht hstep => hstep.maxItems.trans ht) (show (initial qMaxItems threadsN
          scripts).q.maxItems = _ from rfl) hrun
      rw [hkeep, Nat.mod_eq_of_lt hlt]
    have hlength : s.workers.length = threadsN :=
      run_induction (motive := fun t => t.workers.length = threadsN)
        (fun t t' ht hstep => hstep.length_workers.trans ht) List.length_replicate hrun
    have hworkers : s.workers ≠ [] := by
      intro hnil
      exact hthreads (by rw [← hlength, hnil, List.length_nil])
    obtain ⟨queued, terminates, dropped, hend⟩ := hstart.run hrun
    exact hend.canStep (by omega) hworkers hunfinished

/-- A message posted by a producer, taken and dealt with is three steps, and so is one of the
destructor's; it begins and ends in two more. -/
theorem rank_initial (qMaxItems threadsN : ℕ) (scripts : List (List (μ × OverflowPolicy))) :
    (initial qMaxItems threadsN scripts).rank =
      3 * ((scripts.map List.length).sum + threadsN + 1) + 1 := by
  have hpending : (tagScripts scripts).map List.length = scripts.map List.length := by
    apply List.ext_getElem
    · simp [tagScripts]
    · intro i hi hi'
      simp [tagScripts, tagScript]
  have hqueue : (initial qMaxItems threadsN scripts).q.toList = [] := CircularQ.toList_new qMaxItems
  have hbusy : ((List.replicate threadsN (⟨.waiting, 0⟩ : Worker μ)).map busyness).sum = 0 := by
    rw [List.map_replicate, List.sum_replicate]
    rfl
  rw [rank, hqueue]
  simp only [remaining, initial, hpending, hbusy, List.length_replicate, List.length_nil]
  omega

/-- With a place in the queue every run ends, after so many steps at most, and wherever it
stands it can be taken to the end of the destructor. -/
theorem thread_pool_comes_to_end {qMaxItems threadsN : ℕ} (hpos : 0 < qMaxItems)
    (hq : qMaxItems + 1 < sizeT) {scripts : List (List (μ × OverflowPolicy))} {start s : Pool μ}
    (hnew : Pool.new qMaxItems threadsN scripts = .ok start) {acts : List PoolAct}
    (hrun : start.run acts = some s) :
    acts.length ≤ 3 * ((scripts.map List.length).sum + threadsN + 1) + 1 ∧
      ∃ more t, s.run more = some t ∧ t.Finished := by
  obtain ⟨hthreads, rfl⟩ := new_eq_ok hnew
  have hstart : Conserved scripts (initial qMaxItems threadsN scripts) [] 0 [] :=
    .initial hq threadsN
  constructor
  · rw [← rank_initial qMaxItems threadsN scripts]
    exact Runs.partialRun_length_le
      (motive := fun t : Pool μ => ∃ queued terminates dropped,
        Conserved scripts t queued terminates dropped)
      (fun t a t' ⟨_, _, _, ht⟩ hact => ht.step (step_of_act hact))
      (fun t a t' ⟨_, _, _, ht⟩ hact => ht.rank_lt (step_of_act hact)) ⟨_, _, _, hstart⟩ hrun
  · obtain ⟨hmax, hlength⟩ := run_induction
      (motive := fun t => t.q.maxItems = (qMaxItems + 1) % sizeT ∧ t.workers.length = threadsN)
      (fun t t' ht hstep => ⟨hstep.maxItems.trans ht.1, hstep.length_workers.trans ht.2⟩)
      ⟨rfl, List.length_replicate⟩ hrun
    rw [Nat.mod_eq_of_lt hq] at hmax
    have hworkers : s.workers ≠ [] := by
      intro hnil
      exact hthreads (by rw [← hlength, hnil, List.length_nil])
    obtain ⟨queued, terminates, dropped, hend⟩ := hstart.run hrun
    obtain ⟨more, t, hmore, hfinished, -⟩ := hend.comes_to_end (by omega) hworkers
    exact ⟨more, t, hmore, hfinished⟩

/-- From the second of two posts through a queue with one place. -/
theorem thread_pool_comes_to_end_overrun :
    ∃ s, (initial 1 1 overrunScripts).run [.post 0, .post 0] = some s ∧
      ∃ more t, s.run more = some t ∧ t.Finished := by
  have hnew : Pool.new 1 1 overrunScripts = .ok (initial 1 1 overrunScripts) := rfl
  have hrun : (initial 1 1 overrunScripts).run [.post 0, .post 0] = some _ := rfl
  exact ⟨_, hrun, (thread_pool_comes_to_end Nat.one_pos (by decide) hnew hrun).2⟩

/-- With one place, which both posts of `overrunScripts` fill, a step can be taken. -/
theorem thread_pool_progresses_overrun :
    ∃ s, (initial 1 1 overrunScripts).run [.post 0, .post 0, .shutDown] = some s ∧
      ¬ s.Finished ∧ s.CanStep := by
  have hunfinished (s : Pool ℕ) (h : s.shutdown = .posting 1) : ¬ s.Finished := by
    intro hfinished
    cases h.symm.trans hfinished.2
  refine ⟨_, rfl, hunfinished _ rfl, ?_⟩
  have hnew : Pool.new 1 1 overrunScripts = .ok (initial 1 1 overrunScripts) := rfl
  have hprogress := (thread_pool_progresses_iff (by decide) hnew).mpr (by decide)
  exact hprogress [.post 0, .post 0, .shutDown] _ rfl (hunfinished _ rfl)

/-- A pool without a place: the destructor waits for room for its message. -/
theorem thread_pool_halts :
    Pool.new 0 1 ([] : List (List (ℕ × OverflowPolicy))) = .ok (initial 0 1 []) ∧
    ∃ s, (initial 0 1 ([] : List (List (ℕ × OverflowPolicy)))).run [.shutDown] = some s ∧
      s.shutdown = .posting 1 ∧ ¬ s.Finished ∧ ¬ s.CanStep := by
  refine ⟨rfl, _, rfl, rfl, by simp [Finished, initial], ?_⟩
  rintro ⟨a, s', hact⟩
  cases step_of_act hact with
  | post hpending => simp [initial, tagScripts] at hpending
  | takeWork _ hempty => exact absurd hempty (by decide)
  | takeTerminate _ hempty => exact absurd hempty (by decide)
  | deliver hworker => simp [initial, List.getElem?_cons] at hworker
  | exit hworker => simp [initial, List.getElem?_cons] at hworker
  | shutDown hnot => simp at hnot
  | terminate _ hroom => exact absurd hroom (by decide)
  | join hposting => simp [initial] at hposting

end Pool

end Structlog
