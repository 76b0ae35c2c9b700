import Structlog.JsonDump
import Structlog.Populators

/-!
# `json_formatter`

The populators write into a fresh object, the parameters of the message are
written over it, and the object is dumped on a line.  Under each key stands what
was written last, by a populator or as a parameter; and the dump throws exactly if
one of these keys or values is not UTF-8.  Nothing checks the text of the message,
of the logger's name or of the source location before.
-/

namespace Structlog

open Lib Lib.Utf8

structure JsonFormatter where
  eol : Bytes
  populators : List Populator

namespace JsonFormatter

/-- `make_default_populators_`, in one of the orders of the set. -/
def makeDefaultPopulators (now : ℤ) : List Populator :=
  [.dateTimePopulator now, .levelPopulator now, .loggerNamePopulator now, .messagePopulator now]

/-- `json_formatter(eol)`. -/
def new (now : ℤ) (eol : Bytes) : JsonFormatter := ⟨eol, makeDefaultPopulators now⟩

/-- The loop over the populators. -/
def populateAll (env : Environment) (msg : Record) :
    List Populator → Json → ColorRange → Except Failure (List Populator × Json × ColorRange)
  | [], entry, range => .ok ([], entry, range)
  | p :: rest, entry, range => do
      let (p, entry, range) ← p.populate env msg entry range
      let (rest, entry, range) ← populateAll env msg rest entry range
      return (p :: rest, entry, range)

/-- The loop over the parameters. -/
def assignAll : List (Bytes × Json) → Json → Except Failure Json
  | [], entry => .ok entry
  | (key, value) :: rest, entry => do assignAll rest (← entry.assign key value)

def params (msg : Record) : List (Bytes × Json) :=
  match msg.params with
  | none => []
  | some params => params.items

/-- `format`. -/
def format (env : Environment) (msg : Record) (t : Target) (jf : JsonFormatter) :
    Except Failure (JsonFormatter × Target) := do
  let (populators, entry, range) ← populateAll env msg jf.populators (.object []) t.colorRange
  let entry ← assignAll (params msg) entry
  let line ← entry.dump.mapError .threw
  return ({ jf with populators }, range.over (t.dest ++ (line ++ jf.eol)))

/-! ## The object -/

/-- Everything that is written into the object, in order. -/
def contributions (env : Environment) (msg : Record) (jf : JsonFormatter) : List (Bytes × Json) :=
  jf.populators.flatMap (·.contribution env msg) ++ params msg

/-- The object that is dumped. -/
def document (env : Environment) (msg : Record) (jf : JsonFormatter) : OrdMap Bytes Json :=
  OrdMap.empty.insertAll (jf.contributions env msg)

/-- The colour range the populators leave. -/
def rangeAfter (env : Environment) (msg : Record) (range : ColorRange) (jf : JsonFormatter) :
    ColorRange :=
  jf.populators.foldl (fun range p => p.rangeAfter env msg range) range

/-- Every populator returns. -/
def Renders (env : Environment) (msg : Record) (jf : JsonFormatter) : Prop :=
  ∀ p ∈ jf.populators, p.Renders env msg

theorem populateAll_ok {env : Environment} {msg : Record} {populators : List Populator}
    (h : ∀ p ∈ populators, p.Renders env msg) (members : OrdMap Bytes Json) (range : ColorRange) :
    populateAll env msg populators (.object members.entries) range =
      .ok (populators.map (·.next env msg),
        .object (members.insertAll (populators.flatMap (·.contribution env msg))).entries,
        populators.foldl (fun range p => p.rangeAfter env msg range) range) := by
  induction populators generalizing members range with
  | nil => rfl
  | cons p rest ih =>
      obtain ⟨hfirst, hrest⟩ := List.forall_mem_cons.mp h
      rw [populateAll, Populator.populate_ok hfirst members range]
      dsimp only [bind, Except.bind]
      rw [ih hrest, List.flatMap_cons, OrdMap.insertAll_append]
      rfl

theorem populateAll_failed {env : Environment} {msg : Record} {populators : List Populator}
    (h : ¬ ∀ p ∈ populators, p.Renders env msg) (members : OrdMap Bytes Json)
    (range : ColorRange) :
    ∃ failure, populateAll env msg populators (.object members.entries) range = .error failure := by
  induction populators generalizing members range with
  | nil => simp at h
  | cons p rest ih =>
      rw [populateAll]
      by_cases hfirst : p.Renders env msg
      · have hrest : ¬ ∀ p ∈ rest, p.Renders env msg := by
          intro hrest
          exact h (List.forall_mem_cons.mpr ⟨hfirst, hrest⟩)
        rw [Populator.populate_ok hfirst members range]
        dsimp only [bind, Except.bind]
        obtain ⟨failure, hpopulate⟩ :=
          ih hrest (members.insertAll (p.contribution env msg)) (p.rangeAfter env msg range)
        exact ⟨failure, by rw [hpopulate]⟩
      · obtain ⟨failure, hpopulate⟩ :=
          Populator.populate_failed hfirst (.object members.entries) range
        exact ⟨failure, by rw [hpopulate]; rfl⟩

theorem assignAll_ok (entries : List (Bytes × Json)) (members : OrdMap Bytes Json) :
    assignAll entries (.object members.entries) =
      .ok (.object (members.insertAll entries).entries) := by
  induction entries generalizing members with
  | nil => rfl
  | cons entry rest ih =>
      obtain ⟨key, value⟩ := entry
      rw [assignAll, Json.assign_object]
      exact ih (members.insert key value)

/-- The formatter after the message. -/
def next (env : Environment) (msg : Record) (jf : JsonFormatter) : JsonFormatter :=
  { jf with populators := jf.populators.map (·.next env msg) }

/-- What `format` does once the populators have returned. -/
theorem format_eq {env : Environment} {msg : Record} {jf : JsonFormatter}
    (h : jf.Renders env msg) (t : Target) :
    jf.format env msg t =
      ((Json.object (jf.document env msg).entries).dump.mapError Failure.threw).map fun line =>
        (jf.next env msg,
          (jf.rangeAfter env msg t.colorRange).over (t.dest ++ (line ++ jf.eol))) := by
  have hstart : Json.object [] = .object (OrdMap.empty : OrdMap Bytes Json).entries := rfl
  have hdocument : (OrdMap.empty.insertAll (jf.populators.flatMap (·.contribution env msg) ++
      params msg)) = jf.document env msg := rfl
  rw [format, hstart, populateAll_ok h OrdMap.empty t.colorRange]
  dsimp only [bind, Except.bind]
  rw [assignAll_ok, ← OrdMap.insertAll_append, hdocument]
  dsimp only
  cases (Json.object (jf.document env msg).entries).dump <;> rfl

theorem format_ok {env : Environment} {msg : Record} {jf : JsonFormatter}
    (h : jf.Renders env msg) {line : Bytes}
    (hdump : (Json.object (jf.document env msg).entries).dump = .ok line) (t : Target) :
    jf.format env msg t = .ok (jf.next env msg,
      (jf.rangeAfter env msg t.colorRange).over (t.dest ++ (line ++ jf.eol))) := by
  rw [format_eq h t, hdump]
  rfl

theorem format_failed {env : Environment} {msg : Record} {jf : JsonFormatter}
    (h : ¬ jf.Renders env msg) (t : Target) :
    ∃ failure, jf.format env msg t = .error failure := by
  obtain ⟨failure, hpopulate⟩ := populateAll_failed h OrdMap.empty t.colorRange
  have hstart : Json.object [] = .object (OrdMap.empty : OrdMap Bytes Json).entries := rfl
  exact ⟨failure, by rw [format, hstart, hpopulate]; rfl⟩

/-! ## When it returns -/

/-- `format` returns, and has appended one JSON object, on one line, and the eol. -/
def AppendsOneObject (env : Environment) (msg : Record) (t : Target) (jf : JsonFormatter) : Prop :=
  ∃ jf' t' members line, jf.format env msg t = .ok (jf', t') ∧
    (Json.object members).dump = .ok line ∧ Json.Printable line ∧
    t'.dest = t.dest ++ line ++ jf.eol

/-- What is written last under a key is UTF-8, and so is the key. -/
def LastIsText (contributions : List (Bytes × Json)) : Prop :=
  ∀ key value, OrdMap.lastValue key contributions = some value →
    Text key ∧ value.validText = true

theorem validText_document_iff (contributions : List (Bytes × Json)) :
    (Json.object (OrdMap.empty.insertAll contributions).entries).validText = true ↔
      LastIsText contributions := by
  rw [Json.validText, Json.validMembers_eq_true]
  have hmem (key : Bytes) (value : Json) :
      (key, value) ∈ (OrdMap.empty.insertAll contributions).entries ↔
        OrdMap.lastValue key contributions = some value := by
    rw [OrdMap.mem_entries_iff, OrdMap.lookup_insertAll, OrdMap.lookup_empty, Option.or_none]
  constructor
  · intro h key value hlast
    exact h (key, value) ((hmem key value).mpr hlast)
  · intro h entry hentry
    exact h entry.1 entry.2 ((hmem entry.1 entry.2).mp hentry)

/-- The JSON formatter appends an object exactly if every pattern of its populators
can be rendered and what is written last under each key is UTF-8. -/
theorem json_formatter_appends_iff (env : Environment) (msg : Record) (t : Target)
    (jf : JsonFormatter) :
    jf.AppendsOneObject env msg t ↔
      jf.Renders env msg ∧ LastIsText (jf.contributions env msg) := by
  rw [← validText_document_iff]
  have houtcome := Json.dump_outcome (.object (jf.document env msg).entries)
  constructor
  · rintro ⟨jf', t', members, line, hformat, -⟩
    have hrender : jf.Renders env msg := by
      by_contra hrender
      obtain ⟨failure, hfailed⟩ := format_failed hrender t
      rw [hfailed] at hformat
      cases hformat
    refine ⟨hrender, ?_⟩
    by_contra hinvalid
    obtain ⟨what, hdump⟩ := houtcome.2 (Bool.eq_false_iff.mpr hinvalid)
    rw [format_eq hrender t, hdump] at hformat
    cases hformat
  · rintro ⟨hrender, hvalid⟩
    obtain ⟨line, hdump, hprintable⟩ := houtcome.1 hvalid
    exact ⟨_, _, (jf.document env msg).entries, line, format_ok hrender hdump t, hdump, hprintable,
      (List.append_assoc ..).symm⟩

/-- A byte of the payload that is not UTF-8 loses the whole message. -/
theorem json_formatter_drops_payload :
    ¬ (new 0 (ascii "\n")).AppendsOneObject ⟨1, Zone.constant 0⟩
      (LogMsg.new 1700000000000000000 7 {} (ascii "net") .info [0xFF]) ⟨[], 0, 0⟩ := by
  have hthrew : ((new 0 (ascii "\n")).format ⟨1, Zone.constant 0⟩
      (LogMsg.new 1700000000000000000 7 {} (ascii "net") .info [0xFF])
        ⟨[], 0, 0⟩).map (fun _ => ()) =
        .error (.threw (.std (ascii
          "[json.exception.type_error.316] invalid UTF-8 byte at index 0: 0xFF"))) := by
    decide +kernel
  rintro ⟨jf', t', members, line, hformat, -⟩
  rw [hformat] at hthrew
  cases hthrew

end JsonFormatter

end Structlog
