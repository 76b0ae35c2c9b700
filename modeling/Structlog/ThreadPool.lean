import Mathlib.Data.List.Nodup
import Structlog.Lib.ListSet
import Structlog.Lib.Runs
import Structlog.CircularQ
import Structlog.Common

/-!
# `thread_pool`

The pool, its producers and its destructor as one machine.  A step is a critical
section of the queue or what a worker does between two of them: `PoolAct` lists
them, and `Pool.act` is `none` where the step has to wait.  A worker that waits
in vain for ten seconds just waits again, which is no step here.

`posted`, `delivered` and `discarded` are histories; the code has only the
overrun counter.  Messages are tagged with their producer and their position in
what it posts, so that no two are the same.

`Conserved` is the invariant: whatever was posted is delivered, in a worker's
hands, queued or discarded, and the `terminate` messages stand behind all others
in the queue.  `act_conserved` goes through the steps, and
`thread_pool_delivers` reads off what is left when the destructor is through.
-/

namespace Structlog

open Lib

variable {μ : Type*}

/-- A message for the backend: the `seq`-th one of its producer. -/
structure Posted (μ : Type*) where
  producer : ℕ
  seq : ℕ
  body : μ
  deriving DecidableEq, Repr

/-- `async_overflow_policy`. -/
inductive OverflowPolicy
  | block
  | overrunOldest
  deriving DecidableEq, Repr

/-- `async_msg`, the types `log` and `flush` taken together. -/
inductive PoolMsg (μ : Type*)
  | work (m : Posted μ)
  | terminate
  deriving DecidableEq, Repr

/-- What the cells of the queue hold at first; it is never taken out. -/
instance : Inhabited (PoolMsg μ) := ⟨.terminate⟩

inductive WorkerState (μ : Type*)
  | waiting
  | holding (m : PoolMsg μ)
  | exited
  deriving DecidableEq, Repr

/-- A worker and the number of `terminate` messages it has taken. -/
structure Worker (μ : Type*) where
  state : WorkerState μ
  terminates : ℕ
  deriving DecidableEq, Repr

/-- How far the destructor is: it still has to post `left` messages, or, at 0,
to join the workers. -/
inductive Shutdown
  | notStarted
  | posting (left : ℕ)
  | done
  deriving DecidableEq, Repr

structure Pool (μ : Type*) where
  q : CircularQ (PoolMsg μ)
  workers : List (Worker μ)
  shutdown : Shutdown
  /-- What each producer has still to post. -/
  pending : List (List (Posted μ × OverflowPolicy))
  posted : List (Posted μ)
  delivered : List (Posted μ)
  discarded : List (PoolMsg μ)

inductive PoolAct
  /-- A producer's next post. -/
  | post (producer : ℕ)
  /-- `dequeue_for` in a worker. -/
  | dequeue (worker : ℕ)
  /-- A worker handles the message it has taken. -/
  | process (worker : ℕ)
  /-- The destructor starts. -/
  | shutDown
  /-- The destructor posts a `terminate` message. -/
  | terminate
  /-- The destructor has joined the workers. -/
  | join
  deriving DecidableEq, Repr

namespace Pool

/-- What the producers are going to post: the bodies and policies, tagged. -/
def tagScript (producer : ℕ) (script : List (μ × OverflowPolicy)) :
    List (Posted μ × OverflowPolicy) :=
  script.mapIdx fun seq post => (⟨producer, seq, post.1⟩, post.2)

def tagScripts (scripts : List (List (μ × OverflowPolicy))) :
    List (List (Posted μ × OverflowPolicy)) :=
  scripts.mapIdx tagScript

/-- A pool of `threadsN` workers, in front of producers. -/
def initial (qMaxItems threadsN : ℕ) (scripts : List (List (μ × OverflowPolicy))) : Pool μ where
  q := .new qMaxItems
  workers := List.replicate threadsN ⟨.waiting, 0⟩
  shutdown := .notStarted
  pending := tagScripts scripts
  posted := []
  delivered := []
  discarded := []

/-- `thread_pool(q_max_items, threads_n)`. -/
def new (qMaxItems threadsN : ℕ) (scripts : List (List (μ × OverflowPolicy))) :
    Except Thrown (Pool μ) :=
  if threadsN = 0 ∨ 1000 < threadsN then
    .error (spdlogEx
      (ascii "spdlog::thread_pool(): invalid threads_n param (valid range is 1-1000)"))
  else .ok (initial qMaxItems threadsN scripts)

/-- `q_.push_back`, with what that drops. -/
def push (s : Pool μ) (m : PoolMsg μ) : Pool μ :=
  { s with
    q := s.q.pushBack m
    discarded := s.discarded ++ BoundedFifo.dropped (s.q.maxItems - 1) s.q.toList m }

/-- `post_async_msg_`: `enqueue` waits while the queue is full, `enqueue_nowait`
does not. -/
def postAsyncMsg (s : Pool μ) (m : PoolMsg μ) (policy : OverflowPolicy) : Option (Pool μ) :=
  match policy with
  | .block => if s.q.full then none else some (s.push m)
  | .overrunOldest => some (s.push m)

def setWorker (s : Pool μ) (i : ℕ) (w : Worker μ) : Pool μ :=
  { s with workers := s.workers.set i w }

def act (s : Pool μ) : PoolAct → Option (Pool μ)
  | .post p =>
      match s.pending[p]? with
      | some ((m, policy) :: rest) =>
          (s.postAsyncMsg (.work m) policy).map fun s' =>
            { s' with pending := s.pending.set p rest, posted := s.posted ++ [m] }
      | _ => none
  | .dequeue i =>
      match s.workers[i]? with
      | some ⟨.waiting, terminates⟩ =>
          if s.q.empty then none
          else
            let taken := match s.q.front with
              | .work _ => terminates
              | .terminate => terminates + 1
            some { s.setWorker i ⟨.holding s.q.front, taken⟩ with q := s.q.popFront }
      | _ => none
  | .process i =>
      match s.workers[i]? with
      | some ⟨.holding (.work m), terminates⟩ =>
          some { s.setWorker i ⟨.waiting, terminates⟩ with delivered := s.delivered ++ [m] }
      | some ⟨.holding .terminate, terminates⟩ => some (s.setWorker i ⟨.exited, terminates⟩)
      | _ => none
  | .shutDown =>
      -- every post has returned
      if s.shutdown = .notStarted ∧ s.pending.all List.isEmpty then
        some { s with shutdown := .posting s.workers.length }
      else none
  | .terminate =>
      match s.shutdown with
      | .posting (left + 1) =>
          (s.postAsyncMsg .terminate .block).map fun s' => { s' with shutdown := .posting left }
      | _ => none
  | .join =>
      if s.shutdown = .posting 0 ∧ s.workers.all (fun w => w.state matches .exited) then
        some { s with shutdown := .done }
      else none

/-- Steps one after the other, if none of them has to wait. -/
def run (s : Pool μ) (acts : List PoolAct) : Option (Pool μ) := Runs.partialRun act s acts

theorem new_eq_ok {qMaxItems threadsN : ℕ} {scripts : List (List (μ × OverflowPolicy))}
    {s : Pool μ} (h : new qMaxItems threadsN scripts = .ok s) :
    threadsN ≠ 0 ∧ s = initial qMaxItems threadsN scripts := by
  rw [new] at h
  by_cases hrange : threadsN = 0 ∨ 1000 < threadsN
  · rw [if_pos hrange] at h
    cases h
  · rw [if_neg hrange] at h
    exact ⟨fun hzero => hrange (.inl hzero), (Except.ok.inj h).symm⟩

/-! ## What a step can do -/

theorem postAsyncMsg_eq_some {s s' : Pool μ} {m : PoolMsg μ} {policy : OverflowPolicy}
    (h : s.postAsyncMsg m policy = some s') :
    s' = s.push m ∧ (policy = .block → s.q.full = false) := by
  cases policy with
  | block =>
      rw [postAsyncMsg] at h
      split_ifs at h with hfull
      exact ⟨(Option.some.inj h).symm, fun _ => by simpa using hfull⟩
  | overrunOldest => exact ⟨(Option.some.inj h).symm, fun h => by cases h⟩

/-- The steps, with the state they lead to. -/
inductive Step (s : Pool μ) : Pool μ → Prop
  | post {p : ℕ} {m : Posted μ} {policy : OverflowPolicy} {rest : List (Posted μ × OverflowPolicy)}
      (hpending : s.pending[p]? = some ((m, policy) :: rest))
      (hroom : policy = .block → s.q.full = false) :
      Step s { s.push (.work m) with
        pending := s.pending.set p rest
        posted := s.posted ++ [m] }
  | takeWork {i count : ℕ} {m : Posted μ} (hworker : s.workers[i]? = some ⟨.waiting, count⟩)
      (hempty : s.q.empty = false) (hfront : s.q.front = .work m) :
      Step s { s.setWorker i ⟨.holding (.work m), count⟩ with q := s.q.popFront }
  | takeTerminate {i count : ℕ} (hworker : s.workers[i]? = some ⟨.waiting, count⟩)
      (hempty : s.q.empty = false) (hfront : s.q.front = .terminate) :
      Step s { s.setWorker i ⟨.holding .terminate, count + 1⟩ with q := s.q.popFront }
  | deliver {i count : ℕ} {m : Posted μ}
      (hworker : s.workers[i]? = some ⟨.holding (.work m), count⟩) :
      Step s { s.setWorker i ⟨.waiting, count⟩ with delivered := s.delivered ++ [m] }
  | exit {i count : ℕ} (hworker : s.workers[i]? = some ⟨.holding .terminate, count⟩) :
      Step s (s.setWorker i ⟨.exited, count⟩)
  | shutDown (hnot : s.shutdown = .notStarted) (hpending : s.pending.all List.isEmpty = true) :
      Step s { s with shutdown := .posting s.workers.length }
  | terminate {left : ℕ} (hposting : s.shutdown = .posting (left + 1)) (hroom : s.q.full = false) :
      Step s { s.push .terminate with shutdown := .posting left }
  | join (hposting : s.shutdown = .posting 0) (hexited : ∀ w ∈ s.workers, w.state = .exited) :
      Step s { s with shutdown := .done }

theorem step_of_act {s s' : Pool μ} {a : PoolAct} (h : s.act a = some s') : s.Step s' := by
  cases a with
  | post p =>
      rw [act] at h
      split at h
      · next hpending =>
          obtain ⟨t, ht, rfl⟩ := Option.map_eq_some_iff.mp h
          obtain ⟨rfl, hroom⟩ := postAsyncMsg_eq_some ht
          exact .post hpending hroom
      · cases h
  | dequeue i =>
      rw [act] at h
      split at h
      · next hworker =>
          split_ifs at h with hempty
          obtain rfl := Option.some.inj h
          -- Which of the two it is depends on the message in front.
          have hempty : s.q.empty = false := by simpa using hempty
          cases hfront : s.q.front with
          | work m => exact .takeWork hworker hempty hfront
          | terminate => exact .takeTerminate hworker hempty hfront
      · cases h
  | process i =>
      rw [act] at h
      split at h
      · next hworker =>
          obtain rfl := Option.some.inj h
          exact .deliver hworker
      · next hworker =>
          obtain rfl := Option.some.inj h
          exact .exit hworker
      · cases h
  | shutDown =>
      rw [act] at h
      split_ifs at h with hguard
      obtain rfl := Option.some.inj h
      exact .shutDown hguard.1 hguard.2
  | terminate =>
      rw [act] at h
      split at h
      · next hposting =>
          obtain ⟨t, ht, rfl⟩ := Option.map_eq_some_iff.mp h
          obtain ⟨rfl, hroom⟩ := postAsyncMsg_eq_some ht
          exact .terminate hposting (hroom rfl)
      · cases h
  | join =>
      rw [act] at h
      split_ifs at h with hguard
      obtain rfl := Option.some.inj h
      refine .join hguard.1 ?_
      intro w hw
      have := List.all_eq_true.mp hguard.2 w hw
      cases hstate : w.state <;> simp_all

/-- A property that every step keeps holds after a run. -/
theorem run_induction {motive : Pool μ → Prop}
    (hstep : ∀ s s', motive s → s.Step s' → motive s') {s s' : Pool μ} (hs : motive s)
    {acts : List PoolAct} (hrun : s.run acts = some s') : motive s' :=
  Runs.partialRun_invariant (fun s _ s' hs hact => hstep s s' hs (step_of_act hact)) hs hrun

/-! ## The invariant -/

/-- Everything the producers have posted or are going to post. -/
def allPosts (scripts : List (List (μ × OverflowPolicy))) : List (Posted μ) :=
  (tagScripts scripts).flatMap fun script => script.map Prod.fst

def pendingPosts (s : Pool μ) : List (Posted μ) :=
  s.pending.flatMap fun script => script.map Prod.fst

/-- What a worker has taken out of the queue and not handed on yet. -/
def heldBy (w : Worker μ) : List (Posted μ) :=
  match w.state with
  | .holding (.work m) => [m]
  | _ => []

def held (s : Pool μ) : List (Posted μ) := s.workers.flatMap heldBy

/-- How many `terminate` messages the workers have taken. -/
def taken (s : Pool μ) : ℕ := (s.workers.map Worker.terminates).sum

/-- The worker has taken a `terminate` message. -/
def ended (w : Worker μ) : Bool :=
  match w.state with
  | .holding .terminate => true
  | .exited => true
  | _ => false

/-- How many `terminate` messages the destructor has still to post. -/
def left (s : Pool μ) : ℕ :=
  match s.shutdown with
  | .posting left => left
  | _ => 0

/-- The queue holds `queued` and behind it `terminates` messages to terminate;
`dropped` was discarded; and the accounts of the pool balance. -/
structure Conserved (scripts : List (List (μ × OverflowPolicy))) (s : Pool μ)
    (queued : List (Posted μ)) (terminates : ℕ) (dropped : List (Posted μ)) : Prop where
  wf : s.q.WellFormed
  queue : s.q.toList = queued.map .work ++ List.replicate terminates .terminate
  discarded : s.discarded = dropped.map .work
  counter : s.q.overrunCounter = s.discarded.length % sizeT
  scripted : (s.posted ++ s.pendingPosts).Perm (allPosts scripts)
  conserved : (s.delivered ++ s.held ++ queued ++ dropped).Perm s.posted
  tally : terminates + s.taken + s.left =
    if s.shutdown = .notStarted then 0 else s.workers.length
  behind : s.taken ≠ 0 → queued = []
  stopped : s.shutdown ≠ .notStarted → s.pendingPosts = []
  worker : ∀ w ∈ s.workers, w.terminates = if ended w then 1 else 0
  joined : s.shutdown = .done → ∀ w ∈ s.workers, w.state = .exited

namespace Conserved

variable {scripts : List (List (μ × OverflowPolicy))} {s s' : Pool μ} {queued : List (Posted μ)}
  {terminates : ℕ} {dropped : List (Posted μ)}

theorem initial {qMaxItems : ℕ} (hq : qMaxItems + 1 < sizeT) (threadsN : ℕ) :
    Conserved scripts (Pool.initial qMaxItems threadsN scripts) [] 0 [] := by
  constructor
  case wf => exact CircularQ.wellFormed_new hq
  case queue => rfl
  case discarded => rfl
  case counter => rfl
  case scripted => exact List.Perm.refl _
  case conserved => simp [held, heldBy, Pool.initial]
  case tally => simp [taken, left, Pool.initial]
  case behind =>
    intro _
    exact rfl
  case stopped =>
    intro hne
    exact absurd rfl hne
  case worker =>
    intro w hw
    obtain rfl := List.eq_of_mem_replicate hw
    rfl
  case joined => simp [Pool.initial]

/-- A message counted among the pending ones is still to be posted. -/
theorem notStarted_of_pending (h : Conserved scripts s queued terminates dropped)
    (hpending : s.pendingPosts ≠ []) :
    s.shutdown = .notStarted ∧ terminates = 0 ∧ s.taken = 0 := by
  have hnot : s.shutdown = .notStarted := by
    by_contra hne
    exact hpending (h.stopped hne)
  have htally := h.tally
  rw [if_pos hnot] at htally
  exact ⟨hnot, by omega, by omega⟩

/-- A step of a producer: the oldest messages may have to go. -/
theorem post (h : Conserved scripts s queued terminates dropped) {p : ℕ} {m : Posted μ}
    {policy : OverflowPolicy} {rest : List (Posted μ × OverflowPolicy)}
    (hpending : s.pending[p]? = some ((m, policy) :: rest)) :
    Conserved scripts
      { s.push (.work m) with pending := s.pending.set p rest, posted := s.posted ++ [m] }
      (BoundedFifo.push (s.q.maxItems - 1) queued m) terminates
      (dropped ++ BoundedFifo.dropped (s.q.maxItems - 1) queued m) := by
  obtain ⟨others, hold, hnew⟩ := perm_flatMap_set hpending rest fun script => script.map Prod.fst
  have hpost : s.pendingPosts.Perm (m :: rest.map Prod.fst ++ others) := hold
  have hne : s.pendingPosts ≠ [] := fun hnil => by
    rw [hnil] at hpost
    simpa using hpost.length_eq
  obtain ⟨hnot, rfl, htaken⟩ := h.notStarted_of_pending hne
  have hqueue : s.q.toList = queued.map .work := by simpa using h.queue
  -- The queue of messages is the bounded FIFO of what they carry.
  obtain ⟨hpush, hcounter⟩ := h.wf.toList_pushBack (.work m)
  rw [hqueue, BoundedFifo.push_map] at hpush
  rw [hqueue, BoundedFifo.dropped_map, h.counter] at hcounter
  have hlost := BoundedFifo.dropped_append_push (s.q.maxItems - 1) queued m
  set kept := BoundedFifo.push (s.q.maxItems - 1) queued m
  set lost := BoundedFifo.dropped (s.q.maxItems - 1) queued m
  have hdiscarded : (s.push (.work m)).discarded = (dropped ++ lost).map .work := by
    rw [push, hqueue, BoundedFifo.dropped_map, h.discarded, List.map_append]
  constructor
  case wf => exact h.wf.pushBack _
  case queue => exact hpush.trans (by simp)
  case discarded => exact hdiscarded
  case counter =>
    rw [hdiscarded]
    apply hcounter.trans
    rw [Nat.mod_add_mod, h.discarded]
    simp
  case scripted =>
    calc (s.posted ++ [m] ++ _).Perm (s.posted ++ ([m] ++ (rest.map Prod.fst ++ others))) := by
          rw [List.append_assoc]
          exact (hnew.append_left [m]).append_left s.posted
      List.Perm _ (s.posted ++ s.pendingPosts) := hpost.symm.append_left s.posted
      List.Perm _ (allPosts scripts) := h.scripted
  case conserved =>
    refine List.Perm.trans ?_ (h.conserved.append_right [m])
    -- What the queue loses is counted as dropped, so that nothing is lost but once.
    have hmove : (kept ++ (dropped ++ lost)).Perm (queued ++ dropped ++ [m]) := by
      calc (kept ++ (dropped ++ lost)).Perm (dropped ++ (lost ++ kept)) := by
            rw [← List.append_assoc dropped]
            exact List.perm_append_comm
        _ = dropped ++ (queued ++ [m]) := by rw [hlost]
        List.Perm _ (queued ++ dropped ++ [m]) := by
            rw [← List.append_assoc]
            exact List.perm_append_comm.append_right _
    have hall : (s.delivered ++ s.held ++ kept ++ (dropped ++ lost)).Perm
        (s.delivered ++ s.held ++ queued ++ dropped ++ [m]) := by
      simpa only [List.append_assoc] using hmove.append_left (s.delivered ++ s.held)
    exact hall
  case tally => exact h.tally
  case behind =>
    intro htaken'
    exact absurd htaken htaken'
  case stopped =>
    intro hstop
    exact absurd hnot hstop
  case worker => exact h.worker
  case joined =>
    intro hdone
    exact absurd (hnot.symm.trans hdone) (by simp)

/-- What changes when a worker does. -/
theorem setWorker_spec {i : ℕ} {w : Worker μ} (hw : s.workers[i]? = some w) (w' : Worker μ) :
    (∃ others, s.held.Perm (heldBy w ++ others) ∧
      (s.setWorker i w').held.Perm (heldBy w' ++ others)) ∧
    (s.setWorker i w').taken + w.terminates = s.taken + w'.terminates ∧
    (s.setWorker i w').workers.length = s.workers.length :=
  ⟨perm_flatMap_set hw w' heldBy, sum_map_set hw w' Worker.terminates, List.length_set ..⟩

theorem worker_set (h : Conserved scripts s queued terminates dropped) (i : ℕ) {w' : Worker μ}
    (hw' : w'.terminates = if ended w' then 1 else 0) :
    ∀ w ∈ (s.setWorker i w').workers, w.terminates = if ended w then 1 else 0 := by
  intro w hmem
  rcases List.mem_or_eq_of_mem_set hmem with hold | rfl
  · exact h.worker w hold
  · exact hw'

/-- While a worker has not exited, the destructor is not through. -/
theorem not_joined (h : Conserved scripts s queued terminates dropped) {i : ℕ} {w : Worker μ}
    (hw : s.workers[i]? = some w) (hstate : w.state ≠ .exited) {p : Prop} :
    s.shutdown = .done → p :=
  fun hdone => absurd (h.joined hdone w (List.mem_of_getElem? hw)) hstate

/-- What is at the front of a queue that is not empty. -/
theorem front_cases (h : Conserved scripts s queued terminates dropped)
    (hempty : s.q.empty = false) :
    (∃ m queued', queued = m :: queued' ∧ s.q.front = .work m ∧
      s.q.popFront.toList = queued'.map .work ++ List.replicate terminates .terminate) ∨
    (∃ terminates', queued = [] ∧ terminates = terminates' + 1 ∧ s.q.front = .terminate ∧
      s.q.popFront.toList = List.replicate terminates' .terminate) := by
  have hcons := h.wf.toList_eq_cons hempty
  rw [h.queue] at hcons
  cases queued with
  | nil =>
      cases terminates with
      | zero => simp at hcons
      | succ terminates' =>
          rw [List.map_nil, List.nil_append, List.replicate_succ] at hcons
          obtain ⟨hfront, hrest⟩ := List.cons.inj hcons
          exact .inr ⟨terminates', rfl, rfl, hfront.symm, hrest.symm⟩
  | cons m queued' =>
      rw [List.map_cons, List.cons_append] at hcons
      obtain ⟨hfront, hrest⟩ := List.cons.inj hcons
      exact .inl ⟨m, queued', rfl, hfront.symm, hrest.symm⟩

/-- A worker takes a message for the backend. -/
theorem takeWork (h : Conserved scripts s queued terminates dropped) {i count : ℕ} {m : Posted μ}
    (hworker : s.workers[i]? = some ⟨.waiting, count⟩) (hempty : s.q.empty = false)
    (hfront : s.q.front = .work m) :
    ∃ queued', queued = m :: queued' ∧
      Conserved scripts { s.setWorker i ⟨.holding (.work m), count⟩ with q := s.q.popFront }
        queued' terminates dropped := by
  rcases h.front_cases hempty with ⟨m', queued', rfl, hfront', hrest⟩ | ⟨_, _, _, hfront', _⟩
  · obtain rfl : m' = m := by simpa [hfront] using hfront'.symm
    obtain ⟨⟨others, hold, hnew⟩, htaken, hlength⟩ :=
      setWorker_spec hworker ⟨.holding (.work m'), count⟩
    have hsame : (s.setWorker i ⟨.holding (.work m'), count⟩).taken = s.taken := by
      simpa using htaken
    refine ⟨queued', rfl, ?_⟩
    constructor
    case wf => exact h.wf.popFront
    case queue => exact hrest
    case discarded => exact h.discarded
    case counter => exact h.counter
    case scripted => exact h.scripted
    case conserved =>
      -- The message goes from the front of the queue to those that are held.
      have hmoved : (s.setWorker i ⟨.holding (.work m'), count⟩).held.Perm (m' :: s.held) :=
        hnew.trans (hold.symm.cons m')
      have hfront : (m' :: s.held ++ queued').Perm (s.held ++ m' :: queued') :=
        List.perm_middle.symm
      calc (s.delivered ++ (s.setWorker i ⟨.holding (.work m'), count⟩).held ++ queued' ++
              dropped).Perm (s.delivered ++ (m' :: s.held) ++ queued' ++ dropped) :=
            ((hmoved.append_left _).append_right _).append_right _
        List.Perm _ (s.delivered ++ s.held ++ m' :: queued' ++ dropped) := by
            apply List.Perm.append_right
            rw [List.append_assoc, List.append_assoc]
            exact hfront.append_left _
        List.Perm _ s.posted := h.conserved
    case tally =>
      change terminates + (s.setWorker i _).taken + s.left =
        if s.shutdown = .notStarted then 0 else (s.setWorker i _).workers.length
      rw [hlength, hsame, h.tally]
    case behind =>
      intro hne
      exact absurd (h.behind (hsame ▸ hne)) (by simp)
    case stopped => exact h.stopped
    case worker =>
      have hcount := h.worker _ (List.mem_of_getElem? hworker)
      exact h.worker_set i hcount
    case joined => exact h.not_joined hworker (by simp)
  · exact absurd (hfront.symm.trans hfront') (by simp)

/-- A worker takes a message to terminate: there is nothing else left. -/
theorem takeTerminate (h : Conserved scripts s queued terminates dropped) {i count : ℕ}
    (hworker : s.workers[i]? = some ⟨.waiting, count⟩) (hempty : s.q.empty = false)
    (hfront : s.q.front = .terminate) :
    ∃ terminates', terminates = terminates' + 1 ∧
      Conserved scripts { s.setWorker i ⟨.holding .terminate, count + 1⟩ with q := s.q.popFront }
        [] terminates' dropped := by
  rcases h.front_cases hempty with ⟨m', queued', _, hfront', _⟩ | ⟨terminates', rfl, rfl, _, hrest⟩
  · exact absurd (hfront.symm.trans hfront') (by simp)
  · obtain ⟨⟨others, hold, hnew⟩, htaken, hlength⟩ :=
      setWorker_spec hworker ⟨.holding .terminate, count + 1⟩
    obtain rfl : count = 0 := by
      simpa [ended] using h.worker _ (List.mem_of_getElem? hworker)
    refine ⟨terminates', rfl, ?_⟩
    constructor
    case wf => exact h.wf.popFront
    case queue => exact hrest
    case discarded => exact h.discarded
    case counter => exact h.counter
    case scripted => exact h.scripted
    case conserved =>
      have hmoved : (s.setWorker i ⟨.holding .terminate, 0 + 1⟩).held.Perm s.held :=
        hnew.trans hold.symm
      exact (((hmoved.append_left _).append_right _).append_right _).trans h.conserved
    case tally =>
      change terminates' + (s.setWorker i ⟨.holding .terminate, 0 + 1⟩).taken + s.left =
        if s.shutdown = .notStarted then 0 else (s.setWorker i _).workers.length
      rw [hlength, ← h.tally]
      have hmore : (s.setWorker i ⟨.holding .terminate, 0 + 1⟩).taken = s.taken + 1 := htaken
      omega
    case behind =>
      intro _
      exact rfl
    case stopped => exact h.stopped
    case worker => exact h.worker_set i rfl
    case joined => exact h.not_joined hworker (by simp)

/-- A worker is through with the message that it holds. -/
theorem finish (h : Conserved scripts s queued terminates dropped) {i count : ℕ}
    {state : WorkerState μ} (hworker : s.workers[i]? = some ⟨state, count⟩)
    (state' : WorkerState μ) (hstate : state ≠ .exited) (hnone : heldBy ⟨state', count⟩ = [])
    (hended : ended ⟨state', count⟩ = ended ⟨state, count⟩) :
    Conserved scripts
      { s.setWorker i ⟨state', count⟩ with
        delivered := s.delivered ++ heldBy ⟨state, count⟩ } queued terminates dropped := by
  obtain ⟨⟨others, hold, hnew⟩, htaken, hlength⟩ := setWorker_spec hworker ⟨state', count⟩
  have hsame : (s.setWorker i ⟨state', count⟩).taken = s.taken := by
    simpa using htaken
  constructor
  case wf => exact h.wf
  case queue => exact h.queue
  case discarded => exact h.discarded
  case counter => exact h.counter
  case scripted => exact h.scripted
  case conserved =>
    rw [hnone, List.nil_append] at hnew
    have hmoved : (heldBy ⟨state, count⟩ ++ (s.setWorker i ⟨state', count⟩).held).Perm s.held :=
      (hnew.append_left _).trans hold.symm
    calc (s.delivered ++ heldBy ⟨state, count⟩ ++ (s.setWorker i ⟨state', count⟩).held ++ queued ++
            dropped).Perm (s.delivered ++ s.held ++ queued ++ dropped) := by
          rw [List.append_assoc s.delivered]
          exact ((hmoved.append_left _).append_right _).append_right _
      List.Perm _ s.posted := h.conserved
  case tally =>
    change terminates + (s.setWorker i _).taken + s.left =
      if s.shutdown = .notStarted then 0 else (s.setWorker i _).workers.length
    rw [hlength, hsame, h.tally]
  case behind =>
    intro hne
    exact h.behind (hsame ▸ hne)
  case stopped => exact h.stopped
  case worker =>
    have hcount := h.worker _ (List.mem_of_getElem? hworker)
    rw [← hended] at hcount
    exact h.worker_set i hcount
  case joined => exact h.not_joined hworker hstate

/-- A worker hands a message to the backend. -/
theorem deliver (h : Conserved scripts s queued terminates dropped) {i count : ℕ} {m : Posted μ}
    (hworker : s.workers[i]? = some ⟨.holding (.work m), count⟩) :
    Conserved scripts { s.setWorker i ⟨.waiting, count⟩ with delivered := s.delivered ++ [m] }
      queued terminates dropped :=
  h.finish hworker .waiting (by simp) rfl rfl

theorem exit (h : Conserved scripts s queued terminates dropped) {i count : ℕ}
    (hworker : s.workers[i]? = some ⟨.holding .terminate, count⟩) :
    Conserved scripts (s.setWorker i ⟨.exited, count⟩) queued terminates dropped := by
  have hfinish := h.finish hworker .exited (by simp) rfl rfl
  rw [show heldBy ⟨.holding .terminate, count⟩ = ([] : List (Posted μ)) from rfl,
    List.append_nil] at hfinish
  exact hfinish

/-- The destructor starts when nothing is pending. -/
theorem shutDown (h : Conserved scripts s queued terminates dropped)
    (hnot : s.shutdown = .notStarted) (hpending : s.pending.all List.isEmpty = true) :
    Conserved scripts { s with shutdown := .posting s.workers.length } queued terminates
      dropped := by
  have htally := h.tally
  rw [if_pos hnot] at htally
  constructor
  case wf => exact h.wf
  case queue => exact h.queue
  case discarded => exact h.discarded
  case counter => exact h.counter
  case scripted => exact h.scripted
  case conserved => exact h.conserved
  case tally =>
    change terminates + s.taken + s.workers.length = s.workers.length
    omega
  case behind => exact h.behind
  case stopped =>
    intro _
    apply List.flatMap_eq_nil_iff.mpr
    intro script hscript
    have := List.all_eq_true.mp hpending script hscript
    rw [List.isEmpty_iff.mp this, List.map_nil]
  case worker => exact h.worker
  case joined => simp

/-- A push onto a queue with room. -/
theorem push_of_room (h : Conserved scripts s queued terminates dropped)
    (hroom : s.q.full = false) (m : PoolMsg μ) :
    (s.push m).q.toList = s.q.toList ++ [m] ∧
      (s.push m).q.overrunCounter = s.q.overrunCounter ∧
      (s.push m).discarded = s.discarded := by
  obtain ⟨hlist, hcounter⟩ := h.wf.toList_pushBack_of_room hroom m
  have hlength : s.q.toList.length < s.q.maxItems - 1 :=
    lt_of_le_of_ne h.wf.length_le fun heq => by simp [h.wf.full_iff.mpr heq] at hroom
  refine ⟨hlist, hcounter, ?_⟩
  rw [push, BoundedFifo.dropped_of_room hlength, List.append_nil]

/-- The destructor's messages wait for room, so that they drop nothing. -/
theorem terminate (h : Conserved scripts s queued terminates dropped) {left : ℕ}
    (hposting : s.shutdown = .posting (left + 1)) (hroom : s.q.full = false) :
    Conserved scripts { s.push .terminate with shutdown := .posting left } queued
      (terminates + 1) dropped := by
  obtain ⟨hlist, hcounter, hdiscarded⟩ := h.push_of_room hroom .terminate
  have hne : s.shutdown ≠ .notStarted := by simp [hposting]
  have hleft : s.left = left + 1 := by rw [Pool.left, hposting]
  constructor
  case wf => exact h.wf.pushBack _
  case queue =>
    calc (s.push .terminate).q.toList
        = s.q.toList ++ [.terminate] := hlist
      _ = queued.map .work ++ (List.replicate terminates .terminate ++ [.terminate]) := by
          rw [h.queue, List.append_assoc]
      _ = queued.map .work ++ List.replicate (terminates + 1) .terminate := by
          rw [← List.replicate_succ']
  case discarded => exact hdiscarded.trans h.discarded
  case counter => exact (hcounter.trans h.counter).trans (by rw [hdiscarded])
  case scripted => exact h.scripted
  case conserved => exact h.conserved
  case tally =>
    have htally := h.tally
    rw [if_neg hne, hleft] at htally
    change terminates + 1 + s.taken + left = s.workers.length
    omega
  case behind => exact h.behind
  case stopped =>
    intro _
    exact h.stopped hne
  case worker => exact h.worker
  case joined => simp

/-- The destructor is through once every worker has exited. -/
theorem join (h : Conserved scripts s queued terminates dropped)
    (hposting : s.shutdown = .posting 0) (hexited : ∀ w ∈ s.workers, w.state = .exited) :
    Conserved scripts { s with shutdown := .done } queued terminates dropped := by
  have hne : s.shutdown ≠ .notStarted := by simp [hposting]
  have hleft : s.left = 0 := by rw [Pool.left, hposting]
  constructor
  case wf => exact h.wf
  case queue => exact h.queue
  case discarded => exact h.discarded
  case counter => exact h.counter
  case scripted => exact h.scripted
  case conserved => exact h.conserved
  case tally =>
    have htally := h.tally
    rw [if_neg hne, hleft] at htally
    exact htally
  case behind => exact h.behind
  case stopped =>
    intro _
    exact h.stopped hne
  case worker => exact h.worker
  case joined =>
    intro _
    exact hexited

/-- Every step keeps the accounts. -/
theorem step (h : Conserved scripts s queued terminates dropped) (hstep : s.Step s') :
    ∃ queued' terminates' dropped', Conserved scripts s' queued' terminates' dropped' := by
  cases hstep with
  | post hpending _ => exact ⟨_, _, _, h.post hpending⟩
  | takeWork hworker hempty hfront =>
      obtain ⟨queued', -, h'⟩ := h.takeWork hworker hempty hfront
      exact ⟨queued', _, _, h'⟩
  | takeTerminate hworker hempty hfront =>
      obtain ⟨terminates', -, h'⟩ := h.takeTerminate hworker hempty hfront
      exact ⟨_, terminates', _, h'⟩
  | deliver hworker => exact ⟨_, _, _, h.deliver hworker⟩
  | exit hworker => exact ⟨_, _, _, h.exit hworker⟩
  | shutDown hnot hpending => exact ⟨_, _, _, h.shutDown hnot hpending⟩
  | terminate hposting hroom => exact ⟨_, _, _, h.terminate hposting hroom⟩
  | join hposting hexited => exact ⟨_, _, _, h.join hposting hexited⟩

theorem run (h : Conserved scripts s queued terminates dropped) {acts : List PoolAct}
    (hrun : s.run acts = some s') :
    ∃ queued' terminates' dropped', Conserved scripts s' queued' terminates' dropped' := by
  refine run_induction (motive := fun t => ∃ queued' terminates' dropped',
    Conserved scripts t queued' terminates' dropped') ?_ ⟨_, _, _, h⟩ hrun
  rintro t t' ⟨queued', terminates', dropped', ht⟩ hstep
  exact ht.step hstep

theorem terminates_of_exited (h : Conserved scripts s queued terminates dropped)
    (hexited : ∀ w ∈ s.workers, w.state = .exited) : ∀ w ∈ s.workers, w.terminates = 1 := by
  intro w hw
  rw [h.worker w hw, if_pos]
  rw [ended, hexited w hw]

/-- Workers that have all exited have taken one message to terminate each. -/
theorem taken_of_exited (h : Conserved scripts s queued terminates dropped)
    (hexited : ∀ w ∈ s.workers, w.state = .exited) : s.taken = s.workers.length := by
  rw [taken, List.map_congr_left (h.terminates_of_exited hexited), List.map_const',
    List.sum_replicate, Nat.nsmul_eq_mul, Nat.mul_one]

/-- When the destructor is through, everything has been settled. -/
theorem done (h : Conserved scripts s queued terminates dropped) (hworkers : s.workers ≠ [])
    (hdone : s.shutdown = .done) :
    (s.delivered ++ dropped).Perm (allPosts scripts) ∧ s.q.toList = [] ∧
      ∀ w ∈ s.workers, w.terminates = 1 := by
  have hexited := h.joined hdone
  have hone := h.terminates_of_exited hexited
  have htaken := h.taken_of_exited hexited
  have hlength : s.workers.length ≠ 0 := fun hzero => hworkers (List.length_eq_zero_iff.mp hzero)
  have htally := h.tally
  rw [if_neg (by simp [hdone]), htaken] at htally
  obtain rfl : terminates = 0 := by omega
  obtain rfl : queued = [] := h.behind (by omega)
  have hheld : s.held = [] := by
    apply List.flatMap_eq_nil_iff.mpr
    intro w hw
    rw [heldBy, hexited w hw]
  have hpending : s.pendingPosts = [] := h.stopped (by simp [hdone])
  refine ⟨?_, by simpa using h.queue, hone⟩
  have hconserved := h.conserved
  have hscripted := h.scripted
  rw [hheld, List.append_nil, List.append_nil] at hconserved
  rw [hpending, List.append_nil] at hscripted
  exact hconserved.trans hscripted

end Conserved

/-! ## The number of workers -/

theorem Step.length_workers {s s' : Pool μ} (h : s.Step s') :
    s'.workers.length = s.workers.length := by
  cases h with
  | post => rfl
  | takeWork => exact List.length_set ..
  | takeTerminate => exact List.length_set ..
  | deliver => exact List.length_set ..
  | exit => exact List.length_set ..
  | shutDown => rfl
  | terminate => rfl
  | join => rfl

/-! ## Posts that wait -/

/-- Everything that is still to be posted waits for room, and nothing was
discarded so far. -/
structure Lossless (s : Pool μ) : Prop where
  pending : ∀ script ∈ s.pending, ∀ post ∈ script, post.2 = .block
  discarded : s.discarded = []

theorem Conserved.lossless_step {scripts : List (List (μ × OverflowPolicy))} {s s' : Pool μ}
    {queued : List (Posted μ)} {terminates : ℕ} {dropped : List (Posted μ)}
    (h : Conserved scripts s queued terminates dropped) (hloss : Lossless s) (hstep : s.Step s') :
    Lossless s' := by
  cases hstep with
  | @post p m policy rest hpending hroom =>
      have hscript := hloss.pending _ (List.mem_of_getElem? hpending)
      have hpolicy : policy = .block := hscript (m, policy) List.mem_cons_self
      refine ⟨fun script hmem => ?_, ?_⟩
      · rcases List.mem_or_eq_of_mem_set hmem with hold | rfl
        · exact hloss.pending script hold
        · intro post hpost
          exact hscript post (List.mem_cons_of_mem _ hpost)
      · exact (h.push_of_room (hroom hpolicy) (.work m)).2.2.trans hloss.discarded
  | takeWork => exact ⟨hloss.pending, hloss.discarded⟩
  | takeTerminate => exact ⟨hloss.pending, hloss.discarded⟩
  | deliver => exact ⟨hloss.pending, hloss.discarded⟩
  | exit => exact ⟨hloss.pending, hloss.discarded⟩
  | shutDown => exact ⟨hloss.pending, hloss.discarded⟩
  | terminate _ hroom =>
      exact ⟨hloss.pending, (h.push_of_room hroom .terminate).2.2.trans hloss.discarded⟩
  | join => exact ⟨hloss.pending, hloss.discarded⟩

/-! ## A queue whose size wrapped around -/

/-- With no cells in the queue no worker ever gets a message. -/
structure Disabled (s : Pool μ) : Prop where
  maxItems : s.q.maxItems = 0
  empty : s.q.empty = true
  workers : s.workers ≠ []
  waiting : ∀ w ∈ s.workers, w.state = .waiting
  shutdown : s.shutdown ≠ .done

theorem Disabled.step {s s' : Pool μ} (h : Disabled s) (hstep : s.Step s') : Disabled s' := by
  have hpush (m : PoolMsg μ) : (s.push m).q = s.q := by
    simp [push, CircularQ.pushBack, h.maxItems]
  have hnone {i : ℕ} {w : Worker μ} (hw : s.workers[i]? = some w) (hne : w.state ≠ .waiting) :
      False := hne (h.waiting w (List.mem_of_getElem? hw))
  cases hstep with
  | @post p m =>
      exact ⟨by rw [← h.maxItems, ← hpush (.work m)], by rw [← h.empty, ← hpush (.work m)],
        h.workers, h.waiting, h.shutdown⟩
  | takeWork _ hempty => exact absurd h.empty (by simp [hempty])
  | takeTerminate _ hempty => exact absurd h.empty (by simp [hempty])
  | deliver hworker => exact (hnone hworker (by simp)).elim
  | exit hworker => exact (hnone hworker (by simp)).elim
  | shutDown => exact ⟨h.maxItems, h.empty, h.workers, h.waiting, by simp⟩
  | terminate =>
      exact ⟨by rw [← h.maxItems, ← hpush .terminate], by rw [← h.empty, ← hpush .terminate],
        h.workers, h.waiting, by simp⟩
  | join _ hexited =>
      obtain ⟨w, hw⟩ := List.exists_mem_of_ne_nil _ h.workers
      exact absurd ((h.waiting w hw).symm.trans (hexited w hw)) (by simp)

/-! ## The end of the destructor -/

theorem mem_tagScript {producer : ℕ} {script : List (μ × OverflowPolicy)} {m : Posted μ}
    (h : m ∈ (tagScript producer script).map Prod.fst) : m.producer = producer := by
  obtain ⟨post, hpost, rfl⟩ := List.mem_map.mp h
  obtain ⟨seq, _, rfl⟩ := List.mem_mapIdx.mp hpost
  rfl

/-- No two messages are the same. -/
theorem nodup_allPosts (scripts : List (List (μ × OverflowPolicy))) :
    (allPosts scripts).Nodup := by
  have hscript (producer : ℕ) (script : List (μ × OverflowPolicy)) :
      ((tagScript producer script).map Prod.fst).Nodup := by
    rw [List.nodup_iff_pairwise_ne, List.pairwise_iff_getElem]
    intro i j hi hj hlt heq
    have hseq := congrArg Posted.seq heq
    simp only [tagScript, List.getElem_map, List.getElem_mapIdx] at hseq
    omega
  rw [allPosts, List.nodup_flatMap]
  refine ⟨fun script hmem => ?_, ?_⟩
  · obtain ⟨producer, _, rfl⟩ := List.mem_mapIdx.mp hmem
    exact hscript producer _
  · rw [List.pairwise_iff_getElem]
    intro i j hi hj hlt m hm hm'
    simp only [tagScripts, List.getElem_mapIdx] at hm hm'
    have := (mem_tagScript hm).symm.trans (mem_tagScript hm')
    omega

theorem lossless_initial {scripts : List (List (μ × OverflowPolicy))}
    (hblock : ∀ script ∈ scripts, ∀ post ∈ script, post.2 = .block) (qMaxItems threadsN : ℕ) :
    Lossless (initial qMaxItems threadsN scripts) := by
  refine ⟨fun script hscript post hpost => ?_, rfl⟩
  obtain ⟨producer, hlt, rfl⟩ := List.mem_mapIdx.mp hscript
  obtain ⟨seq, hlt', rfl⟩ := List.mem_mapIdx.mp hpost
  exact hblock _ (List.getElem_mem hlt) _ (List.getElem_mem hlt')

theorem disabled_initial {qMaxItems threadsN : ℕ} (hq : qMaxItems + 1 = sizeT)
    (hthreads : threadsN ≠ 0) (scripts : List (List (μ × OverflowPolicy))) :
    Disabled (initial qMaxItems threadsN scripts) where
  maxItems := by simp [initial, CircularQ.new, hq]
  empty := rfl
  workers hnil := hthreads ((List.replicate_eq_nil_iff _).mp hnil)
  waiting w hw := by rw [List.eq_of_mem_replicate hw]
  shutdown := by simp [initial]

/-- However the producers, the workers and the destructor are interleaved: once
the destructor is through, every message has been handed to the backend or
discarded, and that once; only messages for the backend were discarded, as many
as the overrun counter says (a `size_t`); every worker has taken one `terminate`
message; and the queue is empty.  Posts that wait for room lose nothing. -/
theorem thread_pool_delivers {qMaxItems threadsN : ℕ} (hq : qMaxItems < sizeT)
    {scripts : List (List (μ × OverflowPolicy))} {start s : Pool μ} {acts : List PoolAct}
    (hnew : Pool.new qMaxItems threadsN scripts = .ok start) (hrun : start.run acts = some s)
    (hdone : s.shutdown = .done) :
    (allPosts scripts).Nodup ∧
    (∃ dropped, s.discarded = dropped.map .work ∧
      (s.delivered ++ dropped).Perm (allPosts scripts)) ∧
    s.q.overrunCounter = s.discarded.length % sizeT ∧
    s.workers.length = threadsN ∧ (∀ w ∈ s.workers, w.terminates = 1) ∧
    s.q.toList = [] ∧
    ((∀ script ∈ scripts, ∀ post ∈ script, post.2 = .block) →
      s.discarded = [] ∧ s.delivered.Perm (allPosts scripts)) := by
  obtain ⟨hthreads, rfl⟩ := new_eq_ok hnew
  rcases Nat.lt_or_ge (qMaxItems + 1) sizeT with hlt | hge
  · have hstart : Conserved scripts (initial qMaxItems threadsN scripts) [] 0 [] :=
      .initial hlt threadsN
    have hlength : s.workers.length = threadsN :=
      run_induction (motive := fun t => t.workers.length = threadsN)
        (fun t t' ht hstep => hstep.length_workers.trans ht) List.length_replicate hrun
    obtain ⟨queued, terminates, dropped, hend⟩ := hstart.run hrun
    have hne : s.workers ≠ [] := fun hnil => hthreads (by rw [← hlength, hnil, List.length_nil])
    obtain ⟨hperm, hqueue, hone⟩ := hend.done hne hdone
    refine ⟨nodup_allPosts scripts, ⟨dropped, hend.discarded, hperm⟩, hend.counter, hlength, hone,
      hqueue, fun hblock => ?_⟩
    obtain ⟨_, _, _, -, hloss⟩ := run_induction
      (motive := fun t => ∃ queued terminates dropped,
        Conserved scripts t queued terminates dropped ∧ Lossless t)
      (fun t t' ⟨_, _, _, ht, hloss⟩ hstep => by
        obtain ⟨queued', terminates', dropped', ht'⟩ := ht.step hstep
        exact ⟨queued', terminates', dropped', ht', ht.lossless_step hloss hstep⟩)
      ⟨_, _, _, hstart, lossless_initial hblock _ _⟩ hrun
    have hnil : dropped = [] := by
      simpa [hloss.discarded] using hend.discarded.symm
    rw [hnil, List.append_nil] at hperm
    exact ⟨hloss.discarded, hperm⟩
  · -- the ring has no cells, and nothing ever comes out
    have hdisabled : Disabled s := run_induction (fun t t' ht hstep => ht.step hstep)
      (disabled_initial (by omega) hthreads scripts) hrun
    exact absurd hdone hdisabled.shutdown

/-- Two posts through a queue with one place, the second of which does not
wait. -/
def overrunScripts : List (List (ℕ × OverflowPolicy)) := [[(7, .block), (8, .overrunOldest)]]

def overrunActs : List PoolAct :=
  [.post 0, .post 0, .dequeue 0, .process 0, .shutDown, .terminate, .dequeue 0, .process 0, .join]

theorem thread_pool_delivers_overrun :
    ∃ s, (initial 1 1 overrunScripts).run overrunActs = some s ∧ s.delivered = [⟨0, 1, 8⟩] ∧
      (∃ dropped, s.discarded = dropped.map .work ∧
        (s.delivered ++ dropped).Perm (allPosts overrunScripts)) := by
  refine ⟨_, rfl, rfl, ?_⟩
  exact (@thread_pool_delivers ℕ 1 1 (by decide) overrunScripts _ _ overrunActs rfl rfl rfl).2.1

end Pool

end Structlog
