import Structlog.JsonFormatter
import Structlog.JsonRoundTrip

/-!
# Reading a log of JSON lines

A file that a `json_formatter` has filled is read line by line, each with `json::parse`.
If every pattern can be rendered and what is written last under each key is `Readable`,
this gives back the objects of the messages, in order and none more (`log_reads_back`).
A line has no newline inside, so that the newlines of the eol are the ends of lines.
-/

namespace Structlog.JsonFormatter

open Lib Lib.Utf8 Lib.JsonSyntax

/-- Messages that are formatted one after the other, each into a buffer of its own. -/
def writeLog (jf : JsonFormatter) : List (Environment × Record) →
    Except Failure (JsonFormatter × Bytes)
  | [] => .ok (jf, [])
  | (env, msg) :: rest => do
      let (jf, t) ← jf.format env msg ⟨[], 0, 0⟩
      let (jf, text) ← jf.writeLog rest
      return (jf, t.dest ++ text)

/-- The lines of a file that ends with a newline. -/
def fileLines (text : Bytes) : List Bytes := (text.splitOn 0x0A).dropLast

/-- The objects of the messages. -/
def documents (jf : JsonFormatter) : List (Environment × Record) → List (OrdMap Bytes Json)
  | [] => []
  | (env, msg) :: rest => jf.document env msg :: (jf.next env msg).documents rest

/-- What is written last under a key can be read, and so can the key. -/
def LastIsReadable (config : Json.LexerConfig) (contributions : List (Bytes × Json)) : Prop :=
  ∀ key value, OrdMap.lastValue key contributions = some value →
    Text key ∧ Json.Readable config value

/-- Every message can be formatted and read back. -/
def Loggable (config : Json.LexerConfig) (jf : JsonFormatter) :
    List (Environment × Record) → Prop
  | [] => True
  | (env, msg) :: rest =>
      jf.Renders env msg ∧ LastIsReadable config (jf.contributions env msg) ∧
        Loggable config (jf.next env msg) rest

variable {config : Json.LexerConfig}

theorem readable_document_iff (contributions : List (Bytes × Json)) :
    Json.Readable config (.object (OrdMap.empty.insertAll contributions).entries) ↔
      LastIsReadable config contributions := by
  have hmem (key : Bytes) (value : Json) :
      (key, value) ∈ (OrdMap.empty.insertAll contributions).entries ↔
        OrdMap.lastValue key contributions = some value := by
    rw [OrdMap.mem_entries_iff, OrdMap.lookup_insertAll, OrdMap.lookup_empty, Option.or_none]
  rw [Json.Readable, Json.readableMembers_iff]
  constructor
  · rintro ⟨-, h⟩ key value hlast
    exact h (key, value) ((hmem key value).mpr hlast)
  · intro h
    exact ⟨OrdMap.sorted _, fun entry hentry => h entry.1 entry.2 ((hmem _ _).mp hentry)⟩

/-- White space behind a text does not change what it means. -/
theorem parse_spaces {j : Json} (h : Json.Readable config j) {spaces : Bytes}
    (hspaces : Spaces spaces) : ∃ line, j.dump = .ok line ∧ Json.Printable line ∧
      Json.parse config true (line ++ spaces) = some (.ok j) := by
  obtain ⟨line, hdump, hspells⟩ := Json.spells_dump j h
  have hprintable : Json.Printable line := by
    cases hvalid : j.validText with
    | true =>
        obtain ⟨line', hdump', hprintable⟩ := (Json.dump_outcome j).1 hvalid
        rw [hdump] at hdump'
        cases hdump'
        exact hprintable
    | false =>
        obtain ⟨what, hdump'⟩ := (Json.dump_outcome j).2 hvalid
        rw [hdump] at hdump'
        cases hdump'
  exact ⟨line, hdump, hprintable, Json.parse_of_means ⟨Json.tree j, spaces,
    ⟨[], line, rfl, .inl rfl, hspells⟩, ⟨spaces, [], by simp, hspaces, .inl rfl⟩,
    Json.treeValue_tree j h⟩ true⟩

theorem fileLines_line {line : Bytes} (h : ∀ b ∈ line, b ≠ 0x0A) (text : Bytes) :
    fileLines (line ++ 0x0A :: text) = line :: fileLines text := by
  have hsplit : (line ++ 0x0A :: text).splitOn 0x0A = line :: text.splitOn 0x0A := by
    rw [List.splitOn_eq_splitOnP]
    exact List.splitOnP_append_cons_of_forall_mem (by simpa using h) _ (by simp) _
  rw [fileLines, hsplit, List.dropLast_cons_of_ne_nil (List.splitOn_ne_nil _ _)]
  rfl

/-- The lines of a log are read as the objects of its messages. -/
theorem log_reads_back {blanks : Bytes} (hblanks : Spaces blanks) (hnewline : 0x0A ∉ blanks)
    {calls : List (Environment × Record)} {jf : JsonFormatter} (heol : jf.eol = blanks ++ [0x0A])
    (h : Loggable config jf calls) :
    ∃ jf' text, jf.writeLog calls = .ok (jf', text) ∧
      (fileLines text).map (Json.parse config true) =
        (jf.documents calls).map fun members => some (.ok (.object members.entries)) := by
  induction calls generalizing jf with
  | nil => exact ⟨jf, [], rfl, rfl⟩
  | cons call rest ih =>
      obtain ⟨env, msg⟩ := call
      obtain ⟨hrenders, hlast, hrest⟩ := h
      -- this message first; the formatter it leaves behind writes the rest
      obtain ⟨line, hdump, hprintable, hparse⟩ :=
        parse_spaces ((readable_document_iff _).mpr hlast) hblanks
      obtain ⟨jf', text, hwrite, hlines⟩ := @ih (jf.next env msg) heol hrest
      have hformat := format_ok hrenders hdump ⟨[], 0, 0⟩
      refine ⟨jf', line ++ blanks ++ 0x0A :: text, ?_, ?_⟩
      · rw [writeLog, hformat]
        dsimp only [bind, Except.bind]
        rw [hwrite, heol]
        simp [ColorRange.over, pure, Except.pure]
      · rw [fileLines_line, List.map_cons, hlines, hparse]
        · rfl
        · intro b hb
          rintro rfl
          -- `dump` escapes newlines, and the end of line has only the last
          rcases List.mem_append.mp hb with hb | hb
          · exact absurd (hprintable _ hb) (by decide)
          · exact hnewline hb

/-- A message, and one with a parameter in the place of what a populator adds. -/
def replaced : List (Environment × Record) :=
  let msg := LogMsg.new 1700000000000000000 7 {} (ascii "net") .info [0xFF]
  let params : Json := .object [(ascii "pid", .string (ascii "a\nb"))]
  [(⟨1, .constant 0⟩, msg), (⟨1, .constant 0⟩, { msg with params := some params })]

theorem log_reads_back_replaced :
    ∃ jf' text, (⟨ascii "\r\n", [.pid, .threadId]⟩ : JsonFormatter).writeLog replaced =
        .ok (jf', text) ∧
      (fileLines text).map (Json.parse ⟨false, 0x2E, fun _ => none⟩ true) =
        ((⟨ascii "\r\n", [.pid, .threadId]⟩ : JsonFormatter).documents replaced).map
          fun members => some (.ok (.object members.entries)) := by
  have hrenders (env : Environment) (msg : Record) :
      (⟨ascii "\r\n", [.pid, .threadId]⟩ : JsonFormatter).Renders env msg := by
    intro p hp
    simp only [List.mem_cons, List.not_mem_nil, or_false] at hp
    rcases hp with rfl | rfl <;> trivial
  refine @log_reads_back ⟨false, 0x2E, fun _ => none⟩ [0x0D] (by simp [Spaces, IsSpace]) (by decide)
    replaced ⟨ascii "\r\n", [.pid, .threadId]⟩ rfl ⟨hrenders _ _, ?_, hrenders _ _, ?_, trivial⟩
  · exact (readable_document_iff _).mp ⟨OrdMap.sorted _, show Text (ascii "pid") by decide,
      ⟨by decide, by decide⟩, show Text (ascii "thread_id") by decide, ⟨by decide, by decide⟩,
      trivial⟩
  · exact (readable_document_iff _).mp ⟨OrdMap.sorted _, show Text (ascii "pid") by decide,
      show Text (ascii "a\nb") by decide, show Text (ascii "thread_id") by decide,
      ⟨by decide, by decide⟩, trivial⟩

end Structlog.JsonFormatter
