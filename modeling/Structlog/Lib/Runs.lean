import Mathlib.Data.List.Basic
import Mathlib.Order.WellFounded

/-!
# Runs of a deterministic machine

A machine is a step function `σ → α → σ`.  `trace` lists the steps of a run as
pairs of the state before and the input, so that a property of the run is a
property of every pair.  The two rules say how such properties are proved: an
invariant kept by the steps that meet a condition holds along every run whose
steps all meet it, and two step properties that agree wherever an invariant
holds agree along every run.

A machine that may refuse an input is a step function into `Option`.  One such
machine simulates another if it takes every step that the other takes, in related
states; it then takes every run that the other takes (`partialRun_simulates`).  Steps
that lower a well-founded rank come to an end (`not_forever`).

A machine that may also fail, and answers each input, is a step function into
`Except`.  Two such machines give the same answers if they do so in related states and
stay related (`answers_eq_of_related`), or exactly as long as a condition is met, if that is
so for each step (`answers_eq_iff`).
-/

namespace Structlog.Lib.Runs

variable {σ α : Type*}

/-- The steps of the run on `inputs`, each with the state before it. -/
def trace (step : σ → α → σ) : σ → List α → List (σ × α)
  | _, [] => []
  | s, a :: rest => (s, a) :: trace step (step s a) rest

/-- The state after the run on `inputs`. -/
def run (step : σ → α → σ) (s : σ) (inputs : List α) : σ := inputs.foldl step s

variable {step : σ → α → σ}

theorem trace_cons (s : σ) (a : α) (rest : List α) :
    trace step s (a :: rest) = (s, a) :: trace step (step s a) rest := rfl

theorem run_cons (s : σ) (a : α) (rest : List α) :
    run step s (a :: rest) = run step (step s a) rest := rfl

theorem length_trace (s : σ) (inputs : List α) : (trace step s inputs).length = inputs.length := by
  induction inputs generalizing s with
  | nil => rfl
  | cons a rest ih => rw [trace, List.length_cons, ih, List.length_cons]

/-- An invariant that the steps with condition `C` keep. -/
theorem invariant_of_steps {motive : σ → Prop} {C : σ → α → Prop}
    (hstep : ∀ s a, motive s → C s a → motive (step s a)) {s : σ} (hs : motive s) (inputs : List α)
    (hcond : ∀ p ∈ trace step s inputs, C p.1 p.2) :
    motive (run step s inputs) ∧ ∀ p ∈ trace step s inputs, motive p.1 := by
  induction inputs generalizing s with
  | nil => exact ⟨hs, by simp [trace]⟩
  | cons a rest ih =>
      have hnext := hstep s a hs (hcond (s, a) List.mem_cons_self)
      obtain ⟨hrun, htrace⟩ := ih hnext fun p hp => hcond p (List.mem_cons_of_mem _ hp)
      refine ⟨hrun, ?_⟩
      intro p hp
      rcases List.mem_cons.mp hp with rfl | hp
      · exact hs
      · exact htrace p hp

/-- Two step properties that agree under an invariant agree along a run. -/
theorem forall_trace_congr {motive : σ → Prop} (hstep : ∀ s a, motive s → motive (step s a))
    {first second : σ → α → Prop} (hiff : ∀ s a, motive s → (first s a ↔ second s a))
    {s : σ} (hs : motive s) (inputs : List α) :
    (∀ p ∈ trace step s inputs, first p.1 p.2) ↔ ∀ p ∈ trace step s inputs, second p.1 p.2 := by
  have hinv := (invariant_of_steps (C := fun _ _ => True)
    (fun s a hs _ => hstep s a hs) hs inputs fun _ _ => trivial).2
  exact forall₂_congr fun p hp => hiff p.1 p.2 (hinv p hp)

/-- A property that a step from where it holds keeps exactly under `C` holds throughout a run
exactly if it does at the start and every step meets `C`. -/
theorem holds_throughout_iff {frame motive : σ → Prop} {C D : σ → α → Prop}
    (hframe : ∀ s a, frame s → D s a → frame (step s a))
    (hstep : ∀ s a, frame s → D s a → motive s → (motive (step s a) ↔ C s a))
    {s : σ} (hs : frame s) {inputs : List α} (hinputs : ∀ p ∈ trace step s inputs, D p.1 p.2) :
    (motive (run step s inputs) ∧ ∀ p ∈ trace step s inputs, motive p.1) ↔
      motive s ∧ ∀ p ∈ trace step s inputs, C p.1 p.2 := by
  induction inputs generalizing s with
  | nil =>
      have hnone (P : σ × α → Prop) : ∀ p ∈ trace step s ([] : List α), P p := fun p hp =>
        absurd hp List.not_mem_nil
      exact and_congr_right fun _ => iff_of_true (hnone _) (hnone _)
  | cons a rest ih =>
      rw [trace_cons, List.forall_mem_cons] at hinputs
      have hrest := ih (hframe s a hs hinputs.1) hinputs.2
      rw [trace_cons, run_cons, List.forall_mem_cons, List.forall_mem_cons]
      constructor
      · rintro ⟨hlast, hfirst, hall⟩
        obtain ⟨hnext, hcond⟩ := hrest.mp ⟨hlast, hall⟩
        exact ⟨hfirst, (hstep s a hs hinputs.1 hfirst).mp hnext, hcond⟩
      · rintro ⟨hfirst, hcond, hconds⟩
        have hnext := (hstep s a hs hinputs.1 hfirst).mpr hcond
        obtain ⟨hlast, hall⟩ := hrest.mpr ⟨hnext, hconds⟩
        exact ⟨hlast, hfirst, hall⟩

/-- A step of a run comes after the run on the inputs before it. -/
theorem trace_eq_append {s : σ} {inputs : List α} {before after : List (σ × α)} {p : σ × α}
    (h : trace step s inputs = before ++ p :: after) :
    ∃ earlier, before = trace step s earlier ∧ p.1 = run step s earlier := by
  induction before generalizing s inputs with
  | nil =>
      cases inputs with
      | nil => cases h
      | cons a rest =>
          obtain ⟨rfl, -⟩ := List.cons.inj h
          exact ⟨[], rfl, rfl⟩
  | cons q before ih =>
      cases inputs with
      | nil => cases h
      | cons a rest =>
          obtain ⟨rfl, hrest⟩ := List.cons.inj h
          obtain ⟨earlier, rfl, hstate⟩ := ih hrest
          exact ⟨a :: earlier, rfl, hstate⟩

/-- An invariant of the state and of the steps that have led to it. -/
theorem history_of_steps {motive : List (σ × α) → σ → Prop} {C : σ → α → Prop}
    (hstep : ∀ before s a, motive before s → C s a → motive (before ++ [(s, a)]) (step s a))
    (earlier : List (σ × α)) {s : σ} (hs : motive earlier s) (inputs : List α)
    (hcond : ∀ p ∈ trace step s inputs, C p.1 p.2) :
    motive (earlier ++ trace step s inputs) (run step s inputs) ∧
      ∀ before p after, trace step s inputs = before ++ p :: after →
        motive (earlier ++ before) p.1 := by
  induction inputs generalizing earlier s with
  | nil =>
      have hnone : trace step s ([] : List α) = [] := rfl
      refine ⟨by rwa [hnone, List.append_nil], fun before p after h => ?_⟩
      exact absurd (hnone.symm.trans h) (List.append_ne_nil_of_right_ne_nil _
        (List.cons_ne_nil _ _)).symm
  | cons a rest ih =>
      have hnext := hstep earlier s a hs (hcond (s, a) List.mem_cons_self)
      obtain ⟨hrun, hsplits⟩ := ih _ hnext fun p hp => hcond p (List.mem_cons_of_mem _ hp)
      rw [List.append_assoc, List.singleton_append] at hrun
      refine ⟨hrun, fun before p after h => ?_⟩
      cases before with
      | nil =>
          obtain ⟨rfl, -⟩ := List.cons.inj h
          rwa [List.append_nil]
      | cons q before =>
          obtain ⟨rfl, hrest⟩ := List.cons.inj h
          have hmotive := hsplits before p after hrest
          rwa [List.append_assoc, List.singleton_append] at hmotive

/-! ## Flags

A flag that some inputs set or clear and the others leave alone is told by the last
input of the first kind; one that is never cleared is told by whether some step has
set it. -/

/-- The last attempt in the steps has failed. -/
def LastFails (attempt fails : σ → α → Prop) (steps : List (σ × α)) : Prop :=
  ∃ before p after, steps = before ++ p :: after ∧ attempt p.1 p.2 ∧ fails p.1 p.2 ∧
    ∀ q ∈ after, ¬ attempt q.1 q.2

theorem lastFails_cons {attempt fails : σ → α → Prop} {p : σ × α} {steps : List (σ × α)} :
    LastFails attempt fails (p :: steps) ↔
      LastFails attempt fails steps ∨
        (∀ q ∈ steps, ¬ attempt q.1 q.2) ∧ attempt p.1 p.2 ∧ fails p.1 p.2 := by
  constructor
  · rintro ⟨before, q, after, heq, hattempt, hfails, hafter⟩
    cases before with
    | nil =>
        obtain ⟨rfl, rfl⟩ := List.cons.inj heq
        exact .inr ⟨hafter, hattempt, hfails⟩
    | cons _ before =>
        obtain ⟨rfl, rfl⟩ := List.cons.inj heq
        exact .inl ⟨before, q, after, rfl, hattempt, hfails, hafter⟩
  · rintro (⟨before, q, after, rfl, hlast⟩ | ⟨hnone, hattempt, hfails⟩)
    · exact ⟨p :: before, q, after, rfl, hlast⟩
    · exact ⟨[], p, steps, rfl, hattempt, hfails, hnone⟩

/-- A flag that an attempt sets if it fails and clears if not. -/
theorem flag_run_iff (flag : σ → Prop) {attempt fails : σ → α → Prop}
    (hattempt : ∀ s a, attempt s a → (flag (step s a) ↔ fails s a))
    (hother : ∀ s a, ¬ attempt s a → (flag (step s a) ↔ flag s)) (s : σ) (inputs : List α) :
    flag (run step s inputs) ↔
      LastFails attempt fails (trace step s inputs) ∨
        flag s ∧ ∀ p ∈ trace step s inputs, ¬ attempt p.1 p.2 := by
  induction inputs generalizing s with
  | nil =>
      have hnone : ¬ LastFails attempt fails (trace step s ([] : List α)) := by
        rintro ⟨before, p, after, heq, -⟩
        exact absurd heq (by simp [trace])
      exact ⟨fun h => .inr ⟨h, by simp [trace]⟩, fun h => h.elim (absurd · hnone) And.left⟩
  | cons a rest ih =>
      rw [run_cons, ih, trace_cons, lastFails_cons, List.forall_mem_cons]
      by_cases h : attempt s a
      · rw [hattempt s a h]
        tauto
      · rw [hother s a h]
        tauto

/-- A flag that is never cleared. -/
theorem latch_run_iff (flag : σ → Prop) {sets : σ → α → Prop}
    (hstep : ∀ s a, flag (step s a) ↔ flag s ∨ sets s a) (s : σ) (inputs : List α) :
    flag (run step s inputs) ↔ flag s ∨ ∃ p ∈ trace step s inputs, sets p.1 p.2 := by
  induction inputs generalizing s with
  | nil => simp [run, trace]
  | cons a rest ih =>
      rw [run_cons, ih, trace_cons, hstep, List.exists_mem_cons_iff, or_assoc]

/-! ## Machines that may refuse an input -/

/-- The run on `inputs`, if none of them is refused. -/
def partialRun (step : σ → α → Option σ) : σ → List α → Option σ
  | s, [] => some s
  | s, a :: rest => (step s a).bind fun s' => partialRun step s' rest

theorem partialRun_cons {step : σ → α → Option σ} {s s' t : σ} {a : α} {inputs : List α}
    (hstep : step s a = some s') (hrun : partialRun step s' inputs = some t) :
    partialRun step s (a :: inputs) = some t := by
  rw [partialRun, hstep]
  exact hrun

theorem partialRun_append {step : σ → α → Option σ} {s s' t : σ} {inputs inputs' : List α}
    (hrun : partialRun step s inputs = some s') (hrun' : partialRun step s' inputs' = some t) :
    partialRun step s (inputs ++ inputs') = some t := by
  induction inputs generalizing s with
  | nil =>
      obtain rfl := Option.some.inj hrun
      exact hrun'
  | cons a rest ih =>
      obtain ⟨s₁, hstep, hrest⟩ := Option.bind_eq_some_iff.mp hrun
      exact partialRun_cons hstep (ih hrest)

/-- A property that every step keeps holds after a run. -/
theorem partialRun_invariant {step : σ → α → Option σ} {motive : σ → Prop}
    (hstep : ∀ s a s', motive s → step s a = some s' → motive s') {s s' : σ} (hs : motive s)
    {inputs : List α} (hrun : partialRun step s inputs = some s') : motive s' := by
  induction inputs generalizing s with
  | nil =>
      obtain rfl := Option.some.inj hrun
      exact hs
  | cons a rest ih =>
      obtain ⟨t, ht, hrest⟩ := Option.bind_eq_some_iff.mp hrun
      exact ih (hstep s a t hs ht) hrest

/-- Steps that lower a well-founded rank do not go on for ever. -/
theorem not_forever {β : Type*} [Preorder β] [WellFoundedLT β] {step : σ → α → Option σ}
    {motive : σ → Prop} (hstep : ∀ s a s', motive s → step s a = some s' → motive s')
    {C : α → Prop} {rank : σ → β}
    (hrank : ∀ s a s', motive s → C a → step s a = some s' → rank s' < rank s) {states : ℕ → σ}
    (hs : motive (states 0)) (inputs : ℕ → α)
    (hsteps : ∀ n, step (states n) (inputs n) = some (states (n + 1))) :
    ∃ n, ¬ C (inputs n) := by
  have hmotive (n : ℕ) : motive (states n) := by
    induction n with
    | zero => exact hs
    | succ n ih => exact hstep (states n) (inputs n) (states (n + 1)) ih (hsteps n)
  obtain ⟨n, hn⟩ := @WellFounded.not_rel_apply_succ β (· < ·) _ fun n => rank (states n)
  exact ⟨n, fun hC => hn (hrank _ _ _ (hmotive n) hC (hsteps n))⟩

/-- With a rank that every step lowers, a run is not longer than the rank is high. -/
theorem partialRun_length_le {step : σ → α → Option σ} {motive : σ → Prop}
    (hstep : ∀ s a s', motive s → step s a = some s' → motive s') {rank : σ → ℕ}
    (hrank : ∀ s a s', motive s → step s a = some s' → rank s' < rank s) {s s' : σ}
    (hs : motive s) {inputs : List α} (hrun : partialRun step s inputs = some s') :
    inputs.length ≤ rank s := by
  induction inputs generalizing s with
  | nil => exact Nat.zero_le _
  | cons a rest ih =>
      obtain ⟨t, ht, hrest⟩ := Option.bind_eq_some_iff.mp hrun
      have hlt := hrank s a t hs ht
      have hle := ih (hstep s a t hs ht) hrest
      rw [List.length_cons]
      omega

/-- With a rank that every step lowers, a run can be taken to a state that no step leaves. -/
theorem partialRun_halts {β : Type*} [Preorder β] [WellFoundedLT β] {step : σ → α → Option σ}
    {motive : σ → Prop} (hstep : ∀ s a s', motive s → step s a = some s' → motive s')
    {rank : σ → β} (hrank : ∀ s a s', motive s → step s a = some s' → rank s' < rank s) {s : σ}
    (hs : motive s) :
    ∃ inputs t, partialRun step s inputs = some t ∧ motive t ∧ ∀ a, step t a = none := by
  induction hn : rank s using WellFoundedLT.induction generalizing s with
  | _ n ih =>
      by_cases hhalt : ∀ a, step s a = none
      · exact ⟨[], s, rfl, hs, hhalt⟩
      · push Not at hhalt
        obtain ⟨a, hne⟩ := hhalt
        obtain ⟨s', hact⟩ := Option.ne_none_iff_exists'.mp hne
        obtain ⟨inputs, t, hrun, ht⟩ :=
          ih (rank s') (hn ▸ hrank s a s' hs hact) (hstep s a s' hs hact) rfl
        exact ⟨a :: inputs, t, partialRun_cons hact hrun, ht⟩

/-- Forward simulation. -/
theorem partialRun_simulates {τ : Type*} {concrete : σ → α → Option σ}
    {abstract : τ → α → Option τ} {R : σ → τ → Prop}
    (hstep : ∀ s t a t', R s t → abstract t a = some t' →
      ∃ s', concrete s a = some s' ∧ R s' t')
    {s : σ} {t t' : τ} (h : R s t) {inputs : List α}
    (hrun : partialRun abstract t inputs = some t') :
    ∃ s', partialRun concrete s inputs = some s' ∧ R s' t' := by
  induction inputs generalizing s t with
  | nil =>
      obtain rfl := Option.some.inj hrun
      exact ⟨s, rfl, h⟩
  | cons a rest ih =>
      obtain ⟨t₁, ht, hrest⟩ := Option.bind_eq_some_iff.mp hrun
      obtain ⟨s₁, hs, h₁⟩ := hstep s t a t₁ h ht
      obtain ⟨s', hrun', h'⟩ := ih h₁ hrest
      refine ⟨s', ?_, h'⟩
      rw [partialRun, hs]
      exact hrun'

/-! ## Machines that answer, and may fail -/

section Answers

variable {τ β ε : Type*}

/-- The answers on `inputs`, up to the first failure. -/
def answers (step : σ → α → Except ε (σ × β)) : σ → List α → List (Except ε β)
  | _, [] => []
  | s, a :: rest =>
      match step s a with
      | .error failure => [.error failure]
      | .ok (s', b) => .ok b :: answers step s' rest

/-- The steps up to the first failure, each with the state before it. -/
def reached (step : σ → α → Except ε (σ × β)) : σ → List α → List (σ × α)
  | _, [] => []
  | s, a :: rest =>
      match step s a with
      | .error _ => [(s, a)]
      | .ok (s', _) => (s, a) :: reached step s' rest

/-- The same failure, or the same answer and related states. -/
inductive Alike (R : σ → τ → Prop) : Except ε (σ × β) → Except ε (τ × β) → Prop
  | failed (failure : ε) : Alike R (.error failure) (.error failure)
  | answered {s : σ} {t : τ} (b : β) (h : R s t) : Alike R (.ok (s, b)) (.ok (t, b))

/-- Two machines on inputs of which the second gets the image. -/
theorem answers_eq_of_related {α' : Type*} {first : σ → α → Except ε (σ × β)}
    {second : τ → α' → Except ε (τ × β)} {R : σ → τ → Prop} {f : α → α'} {inputs : List α}
    (hstep : ∀ a ∈ inputs, ∀ s t, R s t → Alike R (first s a) (second t (f a)))
    {s : σ} {t : τ} (h : R s t) :
    answers first s inputs = answers second t (inputs.map f) := by
  induction inputs generalizing s t with
  | nil => rfl
  | cons a rest ih =>
      obtain ⟨hfirst, hrest⟩ := List.forall_mem_cons.mp hstep
      have halike := hfirst s t h
      rw [List.map_cons, answers, answers]
      generalize first s a = left at halike
      generalize second t (f a) = right at halike
      cases halike with
      | failed failure => rfl
      | answered b hnext => exact congrArg _ (ih hrest hnext)

/-- Two machines with the same steps. -/
theorem answers_congr {first second : σ → α → Except ε (σ × β)} {inputs : List α}
    (h : ∀ a ∈ inputs, ∀ s, first s a = second s a) (s : σ) :
    answers first s inputs = answers second s inputs := by
  induction inputs generalizing s with
  | nil => rfl
  | cons a rest ih =>
      obtain ⟨hfirst, hrest⟩ := List.forall_mem_cons.mp h
      rw [answers, answers, hfirst]
      cases second s a with
      | error failure => rfl
      | ok result => exact congrArg _ (ih hrest _)

/-- A machine that answers each input in the same way in all its states. -/
theorem answers_eq_map {step : σ → α → Except ε (σ × β)} {motive : σ → Prop} {answer : α → β}
    (hstep : ∀ s a, motive s → ∃ s', step s a = .ok (s', answer a) ∧ motive s') {s : σ}
    (hs : motive s) (inputs : List α) :
    answers step s inputs = inputs.map fun a => .ok (answer a) := by
  induction inputs generalizing s with
  | nil => rfl
  | cons a rest ih =>
      obtain ⟨s', hanswer, hs'⟩ := hstep s a hs
      rw [answers, hanswer, List.map_cons]
      exact congrArg _ (ih hs')

/-- Two machines that stay related answer alike exactly as long as a condition on the steps
is met, without which the answers differ. -/
theorem answers_eq_iff {first : σ → α → Except ε (σ × β)} {second : τ → α → Except ε (τ × β)}
    {R : σ → τ → Prop} {C : τ → α → Prop} {inputs : List α}
    (halike : ∀ a ∈ inputs, ∀ s t, R s t → C t a → Alike R (first s a) (second t a))
    (hdiffer : ∀ a ∈ inputs, ∀ s t, R s t → ¬ C t a →
      (first s a).map Prod.snd ≠ (second t a).map Prod.snd)
    {s : σ} {t : τ} (h : R s t) :
    answers first s inputs = answers second t inputs ↔
      ∀ p ∈ reached second t inputs, C p.1 p.2 := by
  induction inputs generalizing s t with
  | nil => exact iff_of_true rfl fun p hp => nomatch hp
  | cons a rest ih =>
      obtain ⟨hfirst, hrest⟩ := List.forall_mem_cons.mp halike
      obtain ⟨hne, hrest'⟩ := List.forall_mem_cons.mp hdiffer
      have hnow : (t, a) ∈ reached second t (a :: rest) := by
        rw [reached]
        split <;> exact List.mem_cons_self
      by_cases hcond : C t a
      · have hstep := hfirst s t h hcond
        rw [answers, answers, reached]
        generalize first s a = left at hstep
        generalize second t a = right at hstep
        cases hstep with
        | failed failure => simp [hcond]
        | answered b hnext =>
            rw [List.forall_mem_cons, and_iff_right hcond, ← ih hrest hrest' hnext]
            exact List.cons_inj_right _
      · -- the first answers differ
        refine iff_of_false ?_ fun hall => hcond (hall _ hnow)
        intro heq
        refine hne s t h hcond ?_
        rw [answers, answers] at heq
        cases hleft : first s a <;> cases hright : second t a <;> rw [hleft, hright] at heq <;>
          simp_all [Except.map]

/-- The steps that are reached depend on the states only. -/
theorem reached_congr {first : σ → α → Except ε (σ × β)} {second : σ → α → Except ε (σ × β)}
    (h : ∀ s a, (first s a).map Prod.fst = (second s a).map Prod.fst) (s : σ)
    (inputs : List α) : reached first s inputs = reached second s inputs := by
  induction inputs generalizing s with
  | nil => rfl
  | cons a rest ih =>
      have hstep := h s a
      rw [reached, reached]
      cases hleft : first s a <;> cases hright : second s a
      case error.error => rfl
      case error.ok | ok.error =>
        rw [hleft, hright] at hstep
        cases hstep
      case ok.ok left right =>
        rw [hleft, hright] at hstep
        obtain ⟨s', b⟩ := left
        obtain ⟨t', c⟩ := right
        obtain rfl : s' = t' := Except.ok.inj hstep
        dsimp only
        rw [ih]

/-- An invariant holds at every step that is reached. -/
theorem invariant_of_reached {step : σ → α → Except ε (σ × β)} {motive : σ → Prop}
    {inputs : List α}
    (hstep : ∀ a ∈ inputs, ∀ s s' b, motive s → step s a = .ok (s', b) → motive s')
    {s : σ} (hs : motive s) : ∀ p ∈ reached step s inputs, motive p.1 := by
  induction inputs generalizing s with
  | nil => exact fun p hp => nomatch hp
  | cons a rest ih =>
      obtain ⟨hfirst, hrest⟩ := List.forall_mem_cons.mp hstep
      intro p hp
      rw [reached] at hp
      split at hp
      · rw [List.mem_singleton.mp hp]
        exact hs
      · next s' b hok =>
          rcases List.mem_cons.mp hp with rfl | hp
          · exact hs
          · exact ih hrest (hfirst s s' b hs hok) p hp

end Answers

end Structlog.Lib.Runs
