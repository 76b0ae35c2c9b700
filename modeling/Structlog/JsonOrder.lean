import Structlog.JsonFormatter
import Structlog.PatternPieces

/-!
# The order of the populators

The populators of a JSON formatter are in an `unordered_set` of pointers, so that their
order is another one in each run and in each clone.  `Describes` says what is in the object
of a message without an order: the parameters, and what a populator adds under a key that is
not one of theirs.  If the keys of the populators are different, the object is the one that
`Describes` says (`document_describes`), and there is only one (`Describes.unique`).

A clone of a populator compiles its pattern again and has seen no message.  So it adds what
the populator adds, if that depends on the message alone (`SameAs`); and it is the populator,
if that has not been used either (`Fresh`).
-/

namespace Structlog

open Lib

/-! ## Populators as functions of the message -/

namespace PatternFormatter

def clone (now : ℤ) (pf : PatternFormatter) : PatternFormatter :=
  new now pf.pattern pf.patternTimeType pf.eol

/-- A formatter as its constructor makes it, whatever the clock. -/
structure Fresh (pf : PatternFormatter) : Prop where
  made : ∃ now, pf = new now pf.pattern pf.patternTimeType pf.eol
  noElapsed : NoElapsed pf.pattern

theorem fresh_new (now : ℤ) {pattern : Bytes} (timeType : PatternTimeType) (eol : Bytes)
    (h : NoElapsed pattern) : (new now pattern timeType eol).Fresh :=
  ⟨⟨now, rfl⟩, h⟩

theorem Fresh.clone_eq {pf : PatternFormatter} (h : pf.Fresh) (now : ℤ) : pf.clone now = pf := by
  obtain ⟨now', hmade⟩ := h.made
  have hformatters : pf.formatters = compilePattern now' pf.pattern := by
    rw [hmade]
    rfl
  rw [hmade, clone, new, new, compilePattern_now h.noElapsed now now']

end PatternFormatter

namespace Populator

/-- The key of what it adds. -/
def key : Populator → Bytes
  | pattern key _ => key
  | loggerName key _ => key
  | pid => ascii "pid"
  | threadId => ascii "thread_id"
  | timestamp => ascii "timestamp"

def clone (now : ℤ) : Populator → Populator
  | pattern key pf => pattern key (pf.clone now)
  | loggerName key pf => loggerName key (pf.clone now)
  | p => p

theorem key_clone (now : ℤ) (p : Populator) : (p.clone now).key = p.key := by
  cases p <;> rfl

/-- A populator adds at most one member, under its key. -/
theorem contribution_sublist (env : Environment) (msg : Record) (p : Populator) :
    ((p.contribution env msg).map Prod.fst).Sublist [p.key] := by
  cases p with
  | loggerName key pf =>
      rw [contribution]
      split_ifs
      · exact List.Sublist.refl _
      · exact List.nil_sublist _
  | _ => exact List.Sublist.refl _

/-- For the message, two populators are the same function. -/
structure SameAs (env : Environment) (msg : Record) (p p' : Populator) : Prop where
  renders : p.Renders env msg ↔ p'.Renders env msg
  contribution : p.contribution env msg = p'.contribution env msg

/-- A populator as its constructor makes it, whatever the clock. -/
def Fresh : Populator → Prop
  | pattern _ pf => pf.Fresh
  | loggerName _ pf => pf.Fresh
  | _ => True

theorem Fresh.sameAs_clone {p : Populator} (h : p.Fresh) (now : ℤ) (env : Environment)
    (msg : Record) : (p.clone now).SameAs env msg p := by
  have heq : p.clone now = p := by
    cases p with
    | pattern key pf => exact congrArg (pattern key) (PatternFormatter.Fresh.clone_eq h now)
    | loggerName key pf => exact congrArg (loggerName key) (PatternFormatter.Fresh.clone_eq h now)
    | _ => rfl
  rw [heq]
  exact ⟨Iff.rfl, rfl⟩

end Populator

namespace JsonFormatter

/-- `clone`, with the populators in one of the orders of the set. -/
def clone (now : ℤ) (jf : JsonFormatter) : JsonFormatter :=
  { jf with populators := jf.populators.map (·.clone now) }

/-! ## The object -/

/-- The object for a message: a parameter, or what a populator adds where there is no
parameter. -/
def Describes (env : Environment) (msg : Record) (populators : List Populator)
    (members : OrdMap Bytes Json) : Prop :=
  ∀ key value, members.lookup key = some value ↔
    OrdMap.lastValue key (params msg) = some value ∨
      OrdMap.lastValue key (params msg) = none ∧
        ∃ p ∈ populators, (key, value) ∈ p.contribution env msg

theorem Describes.unique {env : Environment} {msg : Record} {populators : List Populator}
    {members members' : OrdMap Bytes Json} (h : Describes env msg populators members)
    (h' : Describes env msg populators members') : members = members' := by
  apply OrdMap.ext_lookup
  intro key
  apply Option.ext
  intro value
  exact (h key value).trans (h' key value).symm

/-- The order does not matter, nor populators that are the same function. -/
theorem Describes.of_sameAs {env : Environment} {msg : Record}
    {populators populators' : List Populator} {members : OrdMap Bytes Json}
    (h : Describes env msg populators members)
    (hleft : ∀ p ∈ populators, ∃ p' ∈ populators', p.SameAs env msg p')
    (hright : ∀ p' ∈ populators', ∃ p ∈ populators, p.SameAs env msg p') :
    Describes env msg populators' members := by
  intro key value
  have hadded : (∃ p ∈ populators, (key, value) ∈ p.contribution env msg) ↔
      ∃ p' ∈ populators', (key, value) ∈ p'.contribution env msg := by
    constructor
    · rintro ⟨p, hp, hmem⟩
      obtain ⟨p', hp', hsame⟩ := hleft p hp
      rw [hsame.contribution] at hmem
      exact ⟨p', hp', hmem⟩
    · rintro ⟨p', hp', hmem⟩
      obtain ⟨p, hp, hsame⟩ := hright p' hp'
      rw [← hsame.contribution] at hmem
      exact ⟨p, hp, hmem⟩
  rw [h key value, hadded]

/-- No two populators have the same key. -/
def DistinctKeys (populators : List Populator) : Prop := (populators.map Populator.key).Nodup

theorem keys_sublist (env : Environment) (msg : Record) (populators : List Populator) :
    ((populators.flatMap (·.contribution env msg)).map Prod.fst).Sublist
      (populators.map Populator.key) := by
  induction populators with
  | nil => exact List.Sublist.refl _
  | cons p rest ih =>
      rw [List.flatMap_cons, List.map_append]
      exact (p.contribution_sublist env msg).append ih

theorem document_describes {jf : JsonFormatter} (hkeys : DistinctKeys jf.populators)
    (env : Environment) (msg : Record) : Describes env msg jf.populators (jf.document env msg) := by
  intro key value
  have hadded : OrdMap.lastValue key (jf.populators.flatMap (·.contribution env msg)) =
      some value ↔ ∃ p ∈ jf.populators, (key, value) ∈ p.contribution env msg := by
    rw [OrdMap.lastValue_eq_some_iff (hkeys.sublist (keys_sublist env msg jf.populators))]
    exact List.mem_flatMap
  rw [document, OrdMap.lookup_insertAll, OrdMap.lookup_empty, Option.or_none, contributions,
    OrdMap.lastValue_append]
  cases hparams : OrdMap.lastValue key (params msg) with
  | some value' => simp
  | none => simp [hadded]

/-! ## What is appended -/

/-- The buffer after `format`, if it returns. -/
def appended (env : Environment) (msg : Record) (t : Target) (jf : JsonFormatter) :
    Option Bytes :=
  (jf.format env msg t).toOption.map (·.2.dest)

theorem appended_of_renders {env : Environment} {msg : Record} {jf : JsonFormatter}
    (h : jf.Renders env msg) (t : Target) :
    jf.appended env msg t = (Json.object (jf.document env msg).entries).dump.toOption.map
      fun line => t.dest ++ line ++ jf.eol := by
  rw [appended, format_eq h]
  cases (Json.object (jf.document env msg).entries).dump with
  | error thrown => rfl
  | ok line => exact congrArg some (List.append_assoc ..).symm

theorem appended_of_not_renders {env : Environment} {msg : Record} {jf : JsonFormatter}
    (h : ¬ jf.Renders env msg) (t : Target) : jf.appended env msg t = none := by
  obtain ⟨failure, hformat⟩ := format_failed h t
  rw [appended, hformat]
  rfl

/-- Two formatters with the same populators, but for the order, append the same. -/
theorem appended_congr {populators populators' : List Populator} {env : Environment}
    {msg : Record} (hkeys : DistinctKeys populators) (hkeys' : DistinctKeys populators')
    (hleft : ∀ p ∈ populators, ∃ p' ∈ populators', p.SameAs env msg p')
    (hright : ∀ p' ∈ populators', ∃ p ∈ populators, p.SameAs env msg p') (t : Target)
    (eol : Bytes) :
    appended env msg t ⟨eol, populators⟩ = appended env msg t ⟨eol, populators'⟩ := by
  have hrenders : Renders env msg ⟨eol, populators⟩ ↔ Renders env msg ⟨eol, populators'⟩ := by
    constructor
    · intro h p' hp'
      obtain ⟨p, hp, hsame⟩ := hright p' hp'
      exact hsame.renders.mp (h p hp)
    · intro h p hp
      obtain ⟨p', hp', hsame⟩ := hleft p hp
      exact hsame.renders.mpr (h p' hp')
  by_cases h : Renders env msg ⟨eol, populators⟩
  · have hdescribes : Describes env msg populators' (document env msg ⟨eol, populators⟩) :=
      (document_describes hkeys env msg).of_sameAs hleft hright
    have hdocument : document env msg ⟨eol, populators⟩ = document env msg ⟨eol, populators'⟩ :=
      hdescribes.unique (document_describes hkeys' env msg)
    calc appended env msg t ⟨eol, populators⟩
        = (Json.object (document env msg ⟨eol, populators⟩).entries).dump.toOption.map
            fun line => t.dest ++ line ++ eol := appended_of_renders h t
      _ = (Json.object (document env msg ⟨eol, populators'⟩).entries).dump.toOption.map
            fun line => t.dest ++ line ++ eol := by rw [hdocument]
      _ = appended env msg t ⟨eol, populators'⟩ :=
          (appended_of_renders (hrenders.mp h) t).symm
  · rw [appended_of_not_renders h, appended_of_not_renders (mt hrenders.mpr h)]

/-- What a JSON formatter appends is the object of the message and the eol, in whatever
order the populators are.  A clone appends the same, if each populator has not been used or
is a function of the message. -/
theorem json_formatter_unordered {jf : JsonFormatter} (hkeys : DistinctKeys jf.populators)
    (env : Environment) (msg : Record) (t : Target) :
    (∃ members, Describes env msg jf.populators members ∧
      (jf.Renders env msg → jf.appended env msg t =
        (Json.object members.entries).dump.toOption.map fun line => t.dest ++ line ++ jf.eol)) ∧
    (∀ populators : List Populator, populators.Perm jf.populators →
      ({ jf with populators } : JsonFormatter).appended env msg t = jf.appended env msg t) ∧
    ∀ (now : ℤ) (populators : List Populator), populators.Perm (jf.clone now).populators →
      (∀ p ∈ jf.populators, p.Fresh ∨ (p.clone now).SameAs env msg p) →
        ({ jf with populators } : JsonFormatter).appended env msg t = jf.appended env msg t := by
  refine ⟨⟨jf.document env msg, document_describes hkeys env msg,
    fun h => appended_of_renders h t⟩, ?_, ?_⟩
  · intro populators hperm
    have hkeys' : DistinctKeys populators := (hperm.map Populator.key).nodup_iff.mpr hkeys
    refine appended_congr hkeys' hkeys ?_ ?_ t jf.eol
    · intro p hp
      exact ⟨p, hperm.mem_iff.mp hp, Iff.rfl, rfl⟩
    · intro p hp
      exact ⟨p, hperm.mem_iff.mpr hp, Iff.rfl, rfl⟩
  · intro now populators hperm hfunction
    have hsame : ∀ p ∈ jf.populators, (p.clone now).SameAs env msg p := by
      intro p hp
      rcases hfunction p hp with hfresh | hsame
      · exact hfresh.sameAs_clone now env msg
      · exact hsame
    have hclone : (jf.clone now).populators.map Populator.key =
        jf.populators.map Populator.key := by
      rw [clone, List.map_map]
      exact List.map_congr_left fun p _ => p.key_clone now
    have hkeys' : DistinctKeys populators := by
      rw [DistinctKeys, (hperm.map Populator.key).nodup_iff, hclone]
      exact hkeys
    refine appended_congr hkeys' hkeys ?_ ?_ t jf.eol
    · intro p hp
      obtain ⟨origin, horigin, rfl⟩ := List.mem_map.mp (hperm.mem_iff.mp hp)
      exact ⟨origin, horigin, hsame origin horigin⟩
    · intro p hp
      exact ⟨p.clone now, hperm.mem_iff.mpr (List.mem_map_of_mem hp), hsame p hp⟩

theorem fresh_makeDefaultPopulators (now : ℤ) :
    ∀ p ∈ makeDefaultPopulators now, p.Fresh := by
  intro p hp
  rw [makeDefaultPopulators] at hp
  simp only [List.mem_cons, List.not_mem_nil, or_false] at hp
  rcases hp with rfl | rfl | rfl | rfl <;>
    exact PatternFormatter.fresh_new _ _ _ (by decide +kernel)

/-- A message with a parameter that takes the place of the level. -/
def overridden : Record :=
  { LogMsg.new 1700000000000000000 7 {} (ascii "net") .info (ascii "up") with
    params := some (.object [(ascii "level", .integer 7)]) }

/-- The default populators, and a clone with its populators the other way round. -/
theorem json_formatter_unordered_default :
    let jf := new 0 (ascii "\n")
    let populators := (jf.clone 1).populators.reverse
    ({ jf with populators } : JsonFormatter).appended ⟨1, .constant 0⟩ overridden ⟨[], 0, 0⟩ =
      jf.appended ⟨1, .constant 0⟩ overridden ⟨[], 0, 0⟩ := by
  intro jf populators
  have hkeys : DistinctKeys jf.populators := by
    unfold DistinctKeys
    decide +kernel
  apply (json_formatter_unordered hkeys ⟨1, .constant 0⟩ overridden ⟨[], 0, 0⟩).2.2 1
  · exact List.reverse_perm _
  · intro p hp
    exact Or.inl (fresh_makeDefaultPopulators 0 p hp)

end JsonFormatter

end Structlog
