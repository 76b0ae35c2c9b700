import Structlog.Registry

/-!
# A registration that is rejected

`initialize_logger` sets up the new logger before it finds out that its name is taken.  The
level, the flush level, the error handler and the backtrace are in the new logger itself
(`Configured`), but the formatters are in its sinks, and these may be sinks of registered
loggers too.

With a `dist_sink` the formatter goes further down, to sinks that may be shared again.  Which
sinks it comes to, and how often it is cloned on the way, depends on the sinks alone:
`Objects.visits` lists them in order, `assignments_eq_visits` says that the assignments are
these visits with the formatter cloned as often, and the last visit of a sink decides what it
has in the end (`setFormatter_lastVisit`).

So the others are left alone exactly if each sink that they share with the new logger has
what the last visit gives to it (`rejected_registration_keeps_iff`).
-/

namespace Structlog

open Lib

variable {φ ε : Type*} [FormatterBase φ]

/-! ## Where a formatter comes to -/

namespace Objects

omit [FormatterBase φ] in
/-- The sinks that `sink::set_formatter` comes to, each with the number of times that the
formatter has been cloned by then. -/
def visits (o : Objects φ ε) (sink : Addr) (clones : ℕ) : List (Addr × ℕ) :=
  (sink, clones) :: (o.subSinks sink).attach.flatMap fun sub => o.visits sub.1 (clones + 1)
termination_by o.wellFounded.wrap sink
decreasing_by exact sub.2

omit [FormatterBase φ] in
/-- The same for `logger::set_formatter`. -/
def loggerVisits (o : Objects φ ε) : List Addr → List (Addr × ℕ)
  | [] => []
  | [last] => o.visits last 0
  | sink :: rest => o.visits sink 1 ++ o.loggerVisits rest

omit [FormatterBase φ] in
/-- The number of clones on the last visit of a sink, if it is visited. -/
def lastVisit (o : Objects φ ε) (sinks : List Addr) (sink : Addr) : Option ℕ :=
  OrdMap.lastValue sink (o.loggerVisits sinks)

omit [FormatterBase φ] in
theorem visits_eq (o : Objects φ ε) (sink : Addr) (clones : ℕ) :
    o.visits sink clones =
      (sink, clones) :: (o.subSinks sink).flatMap fun sub => o.visits sub (clones + 1) := by
  rw [visits]
  simp only [List.flatMap_subtype, List.unattach_attach]

/-- What a visit gives. -/
def visitWith (f : φ) (visit : Addr × ℕ) : Addr × φ := (visit.1, FormatterBase.clone^[visit.2] f)

theorem sinkAssignments_eq_visits (o : Objects φ ε) (f : φ) (sink : Addr) (clones : ℕ) :
    o.sinkAssignments (FormatterBase.clone^[clones] f) sink =
      (o.visits sink clones).map (visitWith f) := by
  induction sink using o.wellFounded.induction generalizing clones with
  | _ sink ih =>
      rw [Registry.sinkAssignments_eq, visits_eq, List.map_cons, List.map_flatMap,
        ← Function.iterate_succ_apply' FormatterBase.clone]
      congr 1
      apply List.flatMap_congr
      intro sub hsub
      exact ih sub hsub (clones + 1)

theorem assignments_eq_visits (o : Objects φ ε) (f : φ) (sinks : List Addr) :
    o.assignments f sinks = (o.loggerVisits sinks).map (visitWith f) := by
  fun_induction assignments o f sinks with
  | case1 => rfl
  | case2 last => exact o.sinkAssignments_eq_visits f last 0
  | case3 sink rest hrest ih =>
      rw [loggerVisits, List.map_append, ih]
      · exact congrArg (· ++ _) (o.sinkAssignments_eq_visits f sink 1)
      · exact hrest

omit [FormatterBase φ] in
/-- The last assignment counts. -/
theorem assign_eq_lastValue (formatter : Addr → φ) (given : List (Addr × φ)) (sink : Addr) :
    assign formatter given sink = (OrdMap.lastValue sink given).getD (formatter sink) := by
  induction given generalizing formatter with
  | nil => rfl
  | cons entry rest ih =>
      have hrest : assign formatter (entry :: rest) sink =
          assign (Function.update formatter entry.1 entry.2) rest sink := rfl
      rw [hrest, ih, ← List.singleton_append, OrdMap.lastValue_append, OrdMap.lastValue_singleton]
      cases OrdMap.lastValue sink rest with
      | some f => rfl
      | none =>
          split_ifs with hsink
          · rw [hsink]
            exact Function.update_self ..
          · exact Function.update_of_ne hsink _ _

theorem setFormatter_lastVisit (a : Addr) (f : φ) (o : Objects φ ε) (sink : Addr) :
    (o.setFormatter a f).formatter sink =
      ((o.lastVisit (o.logger a).sinks sink).map fun clones =>
        FormatterBase.clone^[clones] f).getD (o.formatter sink) := by
  have hlast := OrdMap.lastValue_map (fun clones => FormatterBase.clone^[clones] f) sink
    (o.loggerVisits (o.logger a).sinks)
  calc (o.setFormatter a f).formatter sink
      = (OrdMap.lastValue sink (o.assignments f (o.logger a).sinks)).getD (o.formatter sink) :=
        assign_eq_lastValue ..
    _ = ((o.lastVisit (o.logger a).sinks sink).map fun clones =>
          FormatterBase.clone^[clones] f).getD (o.formatter sink) := by
        rw [assignments_eq_visits]
        exact congrArg (Option.getD · _) hlast

end Objects

namespace Registry

/-! ## What a rejected registration has done -/

/-- Only the new logger and the formatters of the sinks reached from it have been touched. -/
def Configured (newLogger : Addr) (r r' : Registry φ ε) : Prop :=
  ∃ l : LoggerObject ε, r' = { r with
    objects := { r.objects.setFormatter newLogger (FormatterBase.clone r.formatter) with
      logger := Function.update r.objects.logger newLogger l } }

theorem Configured.onLogger {newLogger : Addr} {r r' : Registry φ ε}
    (h : Configured newLogger r r') (act : LoggerObject ε → LoggerObject ε) :
    Configured newLogger r (r'.onLogger newLogger act) := by
  obtain ⟨l, rfl⟩ := h
  refine ⟨act l, ?_⟩
  rw [Registry.onLogger, Objects.onLogger]
  dsimp only
  rw [Function.update_self, Function.update_idem]

/-- Whether it throws or not. -/
theorem configured_configure (newLogger : Addr) (allocation : Option Thrown) (r : Registry φ ε) :
    Configured newLogger r (r.configure newLogger allocation).2 := by
  have hstart : Configured newLogger r { r with
      objects := r.objects.setFormatter newLogger (FormatterBase.clone r.formatter) } := by
    refine ⟨r.objects.logger newLogger, ?_⟩
    rw [Function.update_eq_self]
    rfl
  have hif {r' : Registry φ ε} {b : Prop} [Decidable b] (h : Configured newLogger r r')
      (act : LoggerObject ε → LoggerObject ε) :
      Configured newLogger r (if b then r'.onLogger newLogger act else r') := by
    split_ifs
    · exact h.onLogger act
    · exact h
  have htrace {r' : Registry φ ε} (h : Configured newLogger r r') :
      Configured newLogger r (if 0 < r'.backtraceNMessages then
        (r'.objects.callLogger newLogger
          (LoggerObject.enableBacktrace r'.backtraceNMessages allocation)).within
            fun objects => { r' with objects }
        else (none, r')).2 := by
    split_ifs
    · exact h.onLogger fun _ => _
    · exact h
  unfold configure
  apply htrace
  exact ((hif hstart _).onLogger _).onLogger _

/-- The registry is as before, and so is every registered logger, with the formatters of the
sinks that it reaches. -/
structure SameForOthers (r r' : Registry φ ε) : Prop where
  registry : { r' with objects := r.objects } = r
  logger : ∀ loggerName a, r.get loggerName = some a → r'.objects.logger a = r.objects.logger a
  formatter : ∀ loggerName a, r.get loggerName = some a →
    ∀ sink, r.objects.Reached (r.objects.logger a).sinks sink →
      r'.objects.formatter sink = r.objects.formatter sink

/-- What is thrown comes too late: the logger has been set up. -/
theorem initializeLogger_taken {newLogger : Addr} {r : Registry φ ε} (allocation : Option Thrown)
    (hauto : r.automaticRegistration = true) (htaken : (r.get (r.nameOf newLogger)).isSome) :
    (r.initializeLogger newLogger allocation).1.isSome ∧
      Configured newLogger r (r.initializeLogger newLogger allocation).2 := by
  have hconfigured := configured_configure newLogger allocation r
  have hframe := frame_configure newLogger allocation r
  have hkept : (r.configure newLogger allocation).2.automaticRegistration = true := by
    obtain ⟨l, hsame⟩ := hconfigured
    rw [hsame]
    exact hauto
  rw [get] at htaken
  rw [initializeLogger]
  cases hthrown : (r.configure newLogger allocation).1 with
  | some thrown =>
      rw [Outcome.andThen_threw hthrown]
      exact ⟨rfl, hconfigured⟩
  | none =>
      rw [Outcome.andThen_returned hthrown, hkept, if_pos rfl, registerLogger,
        hframe.nameOf, throwIfExists, hframe.loggers, if_pos htaken]
      exact ⟨rfl, hconfigured⟩

/-- A new logger whose name is taken is rejected, and nothing but the logger is changed exactly
if the sinks reached both from it and from registered loggers have the formatters already that
they are given last: clones of clones of the registry's formatter. -/
theorem rejected_registration_keeps_iff (r : Registry φ ε) (newLogger : Addr)
    (allocation : Option Thrown) (hauto : r.automaticRegistration = true)
    (htaken : (r.get (r.nameOf newLogger)).isSome)
    (hnew : ∀ loggerName, r.get loggerName ≠ some newLogger) :
    (r.initializeLogger newLogger allocation).1.isSome ∧
      (SameForOthers r (r.initializeLogger newLogger allocation).2 ↔
        ∀ loggerName a, r.get loggerName = some a →
          ∀ sink, r.objects.Reached (r.objects.logger a).sinks sink →
            ∀ clones, r.objects.lastVisit (r.objects.logger newLogger).sinks sink = some clones →
              r.objects.formatter sink = FormatterBase.clone^[clones + 1] r.formatter) := by
  obtain ⟨hthrown, l, hafter⟩ := initializeLogger_taken allocation hauto htaken
  refine ⟨hthrown, ?_⟩
  rw [hafter]
  have hformatter := r.objects.setFormatter_lastVisit newLogger (FormatterBase.clone r.formatter)
  constructor
  · intro hsame loggerName a hfound sink hsink clones hvisit
    have hkept := hsame.formatter loggerName a hfound sink hsink
    rw [← hkept, Function.iterate_succ_apply]
    exact (hformatter sink).trans (by rw [hvisit]; rfl)
  · intro hgiven
    constructor
    case registry => rfl
    case logger =>
      intro loggerName a hfound
      have hother : a ≠ newLogger := fun h => hnew loggerName (h ▸ hfound)
      exact Function.update_of_ne hother _ _
    case formatter =>
      intro loggerName a hfound sink hsink
      apply (hformatter sink).trans
      cases hvisit : r.objects.lastVisit (r.objects.logger newLogger).sinks sink with
      | none => rfl
      | some clones =>
          rw [hgiven loggerName a hfound sink hsink clones hvisit, Function.iterate_succ_apply]
          rfl

instance : FormatterBase Bytes := ⟨id⟩

/-- Two sinks that are `dist_sink`s: one over the sink 7 and one over the sink 8. -/
def subSinksOfX (sink : Addr) : List Addr :=
  if sink = 9 then [7] else if sink = 10 then [8] else []

theorem wellFounded_subSinksOfX : WellFounded fun sub sink => sub ∈ subSinksOfX sink := by
  apply Subrelation.wf _ Nat.lt_wfRel.wf
  intro sub sink hsub
  unfold subSinksOfX at hsub
  split_ifs at hsub with hnine hten
  · obtain rfl := List.mem_singleton.mp hsub
    rw [hnine]
    exact (by decide : (7 : ℕ) < 9)
  · obtain rfl := List.mem_singleton.mp hsub
    rw [hten]
    exact (by decide : (8 : ℕ) < 10)
  · cases hsub

/-- A registered logger `x`, whose sink has a formatter of its own, and loggers of the same name
to come, with the sinks that are given. -/
def registeredX (sinks : List Addr) : Registry Bytes Unit :=
  ((new (ascii "%+") 0 1
    { logger := fun a => { name := ascii "x", sinks := if a = 2 then [7] else sinks }
      formatter := fun _ => ascii "%v"
      subSinks := subSinksOfX
      wellFounded := wellFounded_subSinksOfX }).registerLogger 2).2

theorem get_registeredX (sinks : List Addr) (loggerName : Bytes) (a : Addr) :
    (registeredX sinks).get loggerName = some a → a = 0 ∨ a = 2 := by
  have hget : (registeredX sinks).get loggerName =
      ((OrdMap.empty.insert [] 0).insert (ascii "x") 2).lookup loggerName := rfl
  rw [hget, OrdMap.lookup_insert, OrdMap.lookup_insert]
  split_ifs with hx hdefault
  · intro hfound
    exact Or.inr (Option.some.inj hfound).symm
  · intro hfound
    exact Or.inl (Option.some.inj hfound).symm
  · intro hfound
    cases hfound

theorem loggerVisits_dist (sinks : List Addr) {dist sub : Addr} (hdist : subSinksOfX dist = [sub])
    (hsub : subSinksOfX sub = []) :
    (registeredX sinks).objects.loggerVisits [dist] = [(dist, 0), (sub, 1)] := by
  have hflat : (registeredX sinks).objects.visits sub 1 = [(sub, 1)] := by
    rw [Objects.visits_eq]
    exact congrArg (fun subs : List Addr => (sub, 1) :: subs.flatMap fun below =>
      (registeredX sinks).objects.visits below (1 + 1)) hsub
  rw [Objects.loggerVisits, Objects.visits_eq]
  apply congrArg (List.cons _)
  calc _ = [sub].flatMap fun sub => (registeredX sinks).objects.visits sub (0 + 1) :=
        congrArg (List.flatMap _) hdist
    _ = [(sub, 1)] := by rw [List.flatMap_singleton, hflat]

/-- The sinks of the new logger are its own, a `dist_sink` over another sink. -/
theorem rejected_registration_keeps_own_sink :
    (registeredX [10]).get (ascii "x") = some 2 ∧
      SameForOthers (registeredX [10]) ((registeredX [10]).initializeLogger 3 none).2 := by
  have hnew loggerName : (registeredX [10]).get loggerName ≠ some 3 := fun hfound =>
    absurd (get_registeredX _ _ _ hfound) (by decide)
  refine ⟨by decide, (rejected_registration_keeps_iff (registeredX [10]) 3 none (by decide)
    (by decide) hnew).2.mpr ?_⟩
  intro loggerName a hfound sink hsink clones hvisit
  have hvisited : sink = 10 ∨ sink = 8 := by
    have hmem := OrdMap.isSome_lastValue.mp (Option.isSome_iff_exists.mpr ⟨clones, hvisit⟩)
    have hsinks : ((registeredX [10]).objects.logger 3).sinks = [10] := rfl
    rw [hsinks, loggerVisits_dist [10] rfl rfl] at hmem
    simpa using hmem
  have hflat (top : Addr) (htop : subSinksOfX top = [])
      (hreached : (registeredX [10]).objects.Reached [top] sink) : sink = top := by
    rw [← mem_assignments_iff _ [], Objects.assignments,
      sinkAssignments_of_none (show (registeredX [10]).objects.subSinks top = [] from htop)]
      at hreached
    simpa using hreached
  have hother : sink ≠ 1 ∧ sink ≠ 7 := by
    rcases hvisited with rfl | rfl <;> decide
  rcases get_registeredX _ _ _ hfound with rfl | rfl
  · exact absurd (hflat 1 rfl hsink) hother.1
  · exact absurd (hflat 7 rfl hsink) hother.2

/-- The sink of `x` is given to the new logger too, or to a `dist_sink` of the new logger. -/
theorem rejected_registration_replaces :
    ((registeredX [7]).initializeLogger 3 none).1 =
        some (spdlogEx (ascii "logger with name 'x' already exists")) ∧
      (registeredX [7]).objects.formatter 7 = ascii "%v" ∧
      ((registeredX [7]).initializeLogger 3 none).2.objects.formatter 7 = ascii "%+" ∧
      ((registeredX [9]).initializeLogger 3 none).2.objects.formatter 7 = ascii "%+" ∧
      ¬ SameForOthers (registeredX [7]) ((registeredX [7]).initializeLogger 3 none).2 := by
  have hafter (sinks : List Addr) :
      ((registeredX sinks).initializeLogger 3 none).2.objects.formatter 7 =
        ((registeredX sinks).objects.setFormatter 3 (ascii "%+")).formatter 7 := rfl
  have hflat : ((registeredX [7]).objects.setFormatter 3 (ascii "%+")).formatter 7 =
      ascii "%+" := by
    have hvisits : (registeredX [7]).objects.loggerVisits [7] = [(7, 0)] := Objects.visits_eq ..
    have hvisit : (registeredX [7]).objects.lastVisit [7] 7 = some 0 := by
      rw [Objects.lastVisit, hvisits]
      rfl
    exact (Objects.setFormatter_lastVisit 3 _ _ 7).trans
      (congrArg (fun visit : Option ℕ => (visit.map fun clones =>
        FormatterBase.clone^[clones] (ascii "%+")).getD _) hvisit)
  have hdist : ((registeredX [9]).objects.setFormatter 3 (ascii "%+")).formatter 7 =
      ascii "%+" := by
    have hvisit : (registeredX [9]).objects.lastVisit [9] 7 = some 1 := by
      rw [Objects.lastVisit, loggerVisits_dist [9] (show subSinksOfX 9 = [7] from rfl) rfl]
      rfl
    exact (Objects.setFormatter_lastVisit 3 _ _ 7).trans
      (congrArg (fun visit : Option ℕ => (visit.map fun clones =>
        FormatterBase.clone^[clones] (ascii "%+")).getD _) hvisit)
  refine ⟨by decide, by decide, (hafter [7]).trans hflat, (hafter [9]).trans hdist, ?_⟩
  intro hsame
  have hkept := hsame.formatter (ascii "x") 2 (by decide) 7 ⟨7, by decide, .refl⟩
  rw [hafter, hflat] at hkept
  exact absurd hkept (by decide)

end Registry

end Structlog
