import Mathlib.Algebra.Order.BigOperators.Group.List
import Structlog.ColorRanges
import Structlog.JsonOrder

/-!
# Coloured lines of a JSON formatter

A JSON formatter does not set the colour range for its line: what a pattern with colour
flags leaves in the message are positions in the text of one populator.  The text need not
be in the line at all, as a parameter or another populator with the same key replaces it,
and it may have been longer than the line is.

The condition is one on the populators and the message.

* `JsonFormatter.recorded`: the positions that the flags of the patterns record, one pattern
  after the other, each counted in the bytes that the flags before it in its own pattern
  write.  `rangeAfter_eq` says that the message is left with the last start and the last end
  of them.
* `Json.width` and `objectWidth`: how many bytes a value takes, counted by its parts, where
  a control character, a quote or a backslash in a text takes more than one.
  `length_of_dump` says that this is the length of the dump, if there is one.
* `OrdMap.lastEntries`: of everything that is written into the object, the last under each
  key.  The width of an object does not depend on the order of its members
  (`objectWidth_perm`), so it is that of these entries.

`ansicolor_sink_prints_line_iff` compares the last end with that width
(`JsonFormatter.RangeFits`).  It is met by all messages whose parameters leave the texts of
the populators alone, if no two populators share a key and their patterns cut nothing off
(`JsonFormatter.rangeFits_of_kept`): a position in a text is then no greater than the width
of that text, which is in the object.
-/

namespace Structlog

open Lib Lib.Utf8

/-! ## How much a value takes -/

namespace Json

/-- The bytes that a byte of a text takes: two with a short escape, six with a long one. -/
def byteWidth (b : UInt8) : ℕ :=
  if b ∈ [0x08, 0x09, 0x0A, 0x0C, 0x0D, 0x22, 0x5C] then 2 else if b ≤ 0x1F then 6 else 1

/-- A text in quotes. -/
def stringWidth (s : Bytes) : ℕ := (s.map byteWidth).sum + 2

/-- Parts in brackets, with commas between them. -/
def bracketsWidth (widths : List ℕ) : ℕ := widths.sum + (widths.length - 1) + 2

def binaryWidth (bytes : Bytes) (subtype : Option ℕ) : ℕ :=
  bracketsWidth (bytes.map fun b => decimalLength b.toNat) +
    (match subtype with | some t => decimalLength t | none => 4) + 21

mutual

def width : Json → ℕ
  | null => 4
  | boolean b => if b then 4 else 5
  | integer n => decimalLength n.natAbs + if n < 0 then 1 else 0
  | float x => x.text.length
  | string s => stringWidth s
  | array elements => bracketsWidth (elementWidths elements)
  | object members => bracketsWidth (memberWidths members)
  | binary bytes subtype => binaryWidth bytes subtype
  | discarded => 11

def elementWidths : List Json → List ℕ
  | [] => []
  | element :: rest => element.width :: elementWidths rest

def memberWidths : List (Bytes × Json) → List ℕ
  | [] => []
  | (key, value) :: rest => (stringWidth key + 1 + value.width) :: memberWidths rest

end

/-- What an object with these members takes. -/
def objectWidth (members : List (Bytes × Json)) : ℕ := bracketsWidth (memberWidths members)

theorem memberWidths_eq (members : List (Bytes × Json)) :
    memberWidths members =
      members.map fun member => stringWidth member.1 + 1 + member.2.width := by
  induction members with
  | nil => rfl
  | cons member rest ih =>
      obtain ⟨key, value⟩ := member
      rw [memberWidths, ih, List.map_cons]

/-- The order of the members does not matter. -/
theorem objectWidth_perm {members members' : List (Bytes × Json)} (h : members.Perm members') :
    objectWidth members = objectWidth members' := by
  have hwidths : (memberWidths members).Perm (memberWidths members') := by
    rw [memberWidths_eq, memberWidths_eq]
    exact h.map _
  rw [objectWidth, objectWidth, bracketsWidth, bracketsWidth, hwidths.sum_eq, hwidths.length_eq]

/-- A member is not wider than the object. -/
theorem width_le_objectWidth {members : List (Bytes × Json)} {key : Bytes} {value : Json}
    (h : (key, value) ∈ members) : value.width ≤ objectWidth members := by
  have hmem : stringWidth key + 1 + value.width ∈ memberWidths members := by
    rw [memberWidths_eq]
    exact List.mem_map_of_mem (f := fun member : Bytes × Json =>
      stringWidth member.1 + 1 + member.2.width) h
  have hsum := List.single_le_sum (fun _ _ => Nat.zero_le _) _ hmem
  rw [objectWidth, bracketsWidth]
  omega

theorem length_le_stringWidth (s : Bytes) : s.length ≤ stringWidth s := by
  have hbyte (b : UInt8) : 1 ≤ byteWidth b := by
    unfold byteWidth
    split_ifs <;> decide
  have hsum : s.length ≤ (s.map byteWidth).sum := by
    induction s with
    | nil => exact le_rfl
    | cons b rest ih =>
        have := hbyte b
        rw [List.length_cons, List.map_cons, List.sum_cons]
        omega
  rw [stringWidth]
  omega

/-! ### The length of a dump -/

/-- What is returned has `n` bytes, if anything is. -/
def Measures (n : ℕ) (result : Except Thrown Bytes) : Prop :=
  ∀ text, result = .ok text → text.length = n

theorem Measures.ok (text : Bytes) : Measures text.length (.ok text) := by
  intro text' h
  rw [Except.ok.inj h]

theorem Measures.map {n k : ℕ} {result : Except Thrown Bytes} (h : Measures n result)
    {f : Bytes → Bytes} (hf : ∀ a, (f a).length = a.length + k) :
    Measures (n + k) (do let a ← result; return f a) := by
  intro text htext
  cases result with
  | error thrown => cases htext
  | ok a => rw [← Except.ok.inj htext, hf, h a rfl]

theorem Measures.bind {m n k : ℕ} {first second : Except Thrown Bytes} (h₁ : Measures m first)
    (h₂ : Measures n second) {f : Bytes → Bytes → Bytes}
    (hf : ∀ a b, (f a b).length = a.length + b.length + k) :
    Measures (m + n + k) (do let a ← first; let b ← second; return f a b) := by
  intro text htext
  cases first with
  | error thrown => cases htext
  | ok a =>
      cases second with
      | error thrown => cases htext
      | ok b => rw [← Except.ok.inj htext, hf, h₁ a rfl, h₂ b rfl]

theorem length_escapeByte (b : UInt8) : (escapeByte b).length = byteWidth b :=
  forall_byte (p := fun b => (escapeByte b).length = byteWidth b) (by decide +kernel) b

theorem length_escape (s : Bytes) : (escape s).length = (s.map byteWidth).sum := by
  rw [escape, List.length_flatMap]
  exact congrArg List.sum (List.map_congr_left fun b _ => length_escapeByte b)

theorem measures_quoted (s : Bytes) : Measures (stringWidth s) (quoted s) := by
  have hescaped : Measures (s.map byteWidth).sum (dumpEscaped s) := by
    intro text htext
    by_cases hs : Text s
    · rw [dumpEscaped_of_text hs] at htext
      rw [← Except.ok.inj htext, length_escape]
    · obtain ⟨what, hthrew⟩ := dumpEscaped_of_not_text hs
      rw [hthrew] at htext
      cases htext
  apply hescaped.map
  intro a
  simp only [List.length_append]
  change 1 + a.length + 1 = a.length + 2
  omega

theorem length_intercalate_comma (parts : List Bytes) :
    ((ascii ",").intercalate parts).length =
      (parts.map List.length).sum + (parts.length - 1) := by
  induction parts with
  | nil => rfl
  | cons part rest ih =>
      cases rest with
      | nil => simp
      | cons next more =>
          rw [List.intercalate_cons_cons, List.length_append, List.length_append, ih]
          change part.length + 1 + _ = _
          simp only [List.map_cons, List.sum_cons, List.length_cons]
          omega

theorem length_dumpBinary (bytes : Bytes) (subtype : Option ℕ) :
    (dumpBinary bytes subtype).length = binaryWidth bytes subtype := by
  have hbody := length_intercalate_comma (bytes.map fun b => decimal b.toNat)
  rw [List.map_map, List.length_map] at hbody
  have hwidths : (List.map (List.length ∘ fun b : UInt8 => decimal b.toNat) bytes) =
      bytes.map fun b => decimalLength b.toNat :=
    List.map_congr_left fun b _ => length_decimal b.toNat
  rw [hwidths] at hbody
  have hopening : (ascii "\x7b\"bytes\":[").length = 10 := by decide
  have hmiddle : (ascii "],\"subtype\":").length = 12 := by decide
  have hclosing : (ascii "\x7d").length = 1 := by decide
  cases subtype with
  | none =>
      have hnull : (ascii "null").length = 4 := by decide
      simp only [dumpBinary, binaryWidth, bracketsWidth, List.length_map, List.length_append,
        hbody, hopening, hmiddle, hclosing, hnull]
      omega
  | some t =>
      simp only [dumpBinary, binaryWidth, bracketsWidth, List.length_map, List.length_append,
        hbody, hopening, hmiddle, hclosing, length_decimal]
      omega

mutual

theorem measures_dump : (j : Json) → Measures j.width j.dump
  | null => .ok (ascii "null")
  | boolean true => .ok (ascii "true")
  | boolean false => .ok (ascii "false")
  | integer n => by
      rw [width, ← length_decimalInt]
      exact .ok _
  | float x => .ok x.text
  | string s => measures_quoted s
  | array elements => (measures_dumpElements elements).map fun a => by
      simp only [List.length_append]
      change 1 + a.length + 1 = a.length + 2
      omega
  | object members => (measures_dumpMembers members).map fun a => by
      simp only [List.length_append]
      change 1 + a.length + 1 = a.length + 2
      omega
  | binary bytes subtype => by
      rw [width, ← length_dumpBinary]
      exact .ok _
  | discarded => .ok (ascii "<discarded>")

theorem measures_dumpElements : (elements : List Json) →
    Measures ((elementWidths elements).sum + ((elementWidths elements).length - 1))
      (dumpElements elements)
  | [] => .ok []
  | [element] => measures_dump element
  | element :: next :: rest => by
      have hsplit := (measures_dump element).bind (measures_dumpElements (next :: rest))
        (f := fun a b => a ++ ascii "," ++ b) (k := 1) fun a b => by
          simp only [List.length_append]
          change a.length + 1 + b.length = _
          omega
      have hsum : (elementWidths (element :: next :: rest)).sum +
          ((elementWidths (element :: next :: rest)).length - 1) =
          element.width + ((elementWidths (next :: rest)).sum +
            ((elementWidths (next :: rest)).length - 1)) + 1 := by
        simp only [elementWidths, List.sum_cons, List.length_cons]
        omega
      rw [hsum]
      exact hsplit

theorem measures_dumpMembers : (members : List (Bytes × Json)) →
    Measures ((memberWidths members).sum + ((memberWidths members).length - 1))
      (dumpMembers members)
  | [] => .ok []
  | [(key, value)] => by
      have hmember := (measures_quoted key).bind (measures_dump value)
        (f := fun a b => a ++ ascii ":" ++ b) (k := 1) fun a b => by
          simp only [List.length_append]
          change a.length + 1 + b.length = _
          omega
      have hsum : (memberWidths [(key, value)]).sum + ((memberWidths [(key, value)]).length - 1) =
          stringWidth key + value.width + 1 := by
        simp only [memberWidths, List.sum_cons, List.sum_nil, List.length_cons, List.length_nil]
        omega
      rw [hsum]
      exact hmember
  | (key, value) :: next :: rest => by
      have hmember := (measures_quoted key).bind (measures_dump value)
        (f := fun a b => a ++ ascii ":" ++ b) (k := 1) fun a b => by
          simp only [List.length_append]
          change a.length + 1 + b.length = _
          omega
      have hsplit := hmember.bind (measures_dumpMembers (next :: rest))
        (f := fun a b => a ++ ascii "," ++ b) (k := 1) fun a b => by
          simp only [List.length_append]
          change a.length + 1 + b.length = _
          omega
      have hsum : (memberWidths ((key, value) :: next :: rest)).sum +
          ((memberWidths ((key, value) :: next :: rest)).length - 1) =
          stringWidth key + value.width + 1 + ((memberWidths (next :: rest)).sum +
            ((memberWidths (next :: rest)).length - 1)) + 1 := by
        simp only [memberWidths, List.sum_cons, List.length_cons]
        omega
      rw [hsum]
      simpa [dumpMembers] using hsplit

end

end Json

/-! ## What the populators record -/

/-- The positions that its pattern records. -/
def Populator.recorded (env : Environment) (msg : Record) : Populator → List ColorMark
  | pattern _ pf => pf.recorded env msg
  | loggerName _ pf => pf.recorded env msg
  | _ => []

theorem PatternFormatter.rangeAfter_eq {env : Environment} {msg : Record} {pf : PatternFormatter}
    (h : pf.Renders env msg) (range : ColorRange) :
    pf.rangeAfter env msg range = range.record (pf.recorded env msg) :=
  @marks_eq _ _ _ _ [] range h

theorem Populator.rangeAfter_eq {env : Environment} {msg : Record} {p : Populator}
    (h : p.Renders env msg) (range : ColorRange) :
    p.rangeAfter env msg range = range.record (p.recorded env msg) := by
  cases p with
  | pattern key pf => exact PatternFormatter.rangeAfter_eq h range
  | loggerName key pf => exact PatternFormatter.rangeAfter_eq h range
  | pid | threadId | timestamp => rfl

namespace JsonFormatter

/-- The positions that the patterns of the populators record, one populator after the other. -/
def recorded (env : Environment) (msg : Record) (jf : JsonFormatter) : List ColorMark :=
  jf.populators.flatMap (·.recorded env msg)

theorem rangeAfter_eq {env : Environment} {msg : Record} {jf : JsonFormatter}
    (h : jf.Renders env msg) (range : ColorRange) :
    jf.rangeAfter env msg range = range.record (jf.recorded env msg) := by
  rw [rangeAfter, recorded]
  rw [Renders] at h
  generalize jf.populators = populators at h
  induction populators generalizing range with
  | nil => rfl
  | cons p rest ih =>
      obtain ⟨hfirst, hrest⟩ := List.forall_mem_cons.mp h
      rw [List.foldl_cons, Populator.rangeAfter_eq hfirst, ih _ hrest, List.flatMap_cons,
        ColorRange.record_append]

/-- The object that is dumped takes what is written last under each key. -/
theorem length_of_dump {env : Environment} {msg : Record} {jf : JsonFormatter} {line : Bytes}
    (h : (Json.object (jf.document env msg).entries).dump = .ok line) :
    line.length = Json.objectWidth (OrdMap.lastEntries (jf.contributions env msg)) := by
  rw [Json.measures_dump _ line h, Json.width]
  exact Json.objectWidth_perm (OrdMap.perm_lastEntries _)

/-- It is dumped exactly if these are text. -/
theorem exists_dump_iff (env : Environment) (msg : Record) (jf : JsonFormatter) :
    (∃ line, (Json.object (jf.document env msg).entries).dump = .ok line) ↔
      LastIsText (jf.contributions env msg) := by
  have houtcome := Json.dump_outcome (.object (jf.document env msg).entries)
  rw [← validText_document_iff]
  constructor
  · rintro ⟨line, hline⟩
    by_contra hinvalid
    obtain ⟨what, hthrew⟩ := houtcome.2 (Bool.eq_false_iff.mpr hinvalid)
    rw [hthrew] at hline
    cases hline
  · intro hvalid
    obtain ⟨line, hline, -⟩ := houtcome.1 hvalid
    exact ⟨line, hline⟩

/-- The range that is recorded last is empty, or it ends within the object and the eol. -/
def RangeFits (env : Environment) (msg : Record) (jf : JsonFormatter) : Prop :=
  let marks := jf.recorded env msg
  ColorMark.lastStop marks ≤ ColorMark.lastStart marks ∨
    ColorMark.lastStop marks ≤
      Json.objectWidth (OrdMap.lastEntries (jf.contributions env msg)) + jf.eol.length

end JsonFormatter

namespace AnsicolorSink

/-- With a JSON formatter and `color_mode::always` the sink prints the line exactly if some
pattern cannot be rendered, or what is written last under some key is no text, or the range
that the patterns record last is empty or ends within what the members take. -/
theorem ansicolor_sink_prints_line_iff (env : Environment) (msg : Record) (terminal : Bool)
    (sink : AnsicolorSink) (jf : JsonFormatter) :
    ((sink.setFormatter (.json jf)).setColorMode terminal .always).PrintsLine env msg ↔
      (jf.Renders env msg → JsonFormatter.LastIsText (jf.contributions env msg) →
        jf.RangeFits env msg) := by
  rw [printsLine_json_iff]
  refine forall_congr' fun hrender => ?_
  have hrange : jf.rangeAfter env msg ⟨0, 0⟩ =
      ⟨ColorMark.lastStart (jf.recorded env msg), ColorMark.lastStop (jf.recorded env msg)⟩ :=
    JsonFormatter.rangeAfter_eq hrender ⟨0, 0⟩
  rw [hrange, ← JsonFormatter.exists_dump_iff, JsonFormatter.RangeFits]
  constructor
  · rintro h ⟨line, hline⟩
    have hfits := h line hline
    rw [List.length_append, JsonFormatter.length_of_dump hline] at hfits
    exact hfits
  · intro h line hline
    have hfits := h ⟨line, hline⟩
    rw [List.length_append, JsonFormatter.length_of_dump hline]
    exact hfits

/-- A sink whose JSON formatter colours the message in the text of one populator. -/
def colouredSink : AnsicolorSink :=
  ((new 0 true .always).setFormatter
    (.json ⟨ascii "\n", [.patternPopulator 0 (ascii "k") (ascii "%^%v%$")]⟩)).setColorMode true
    .always

/-- A message of 21 bytes whose parameters replace that text. -/
def replacedMessage : Record :=
  { LogMsg.new 1700000000000000000 7 {} (ascii "net") .info (ascii "connection has closed") with
    params := some (.object [(ascii "k", .integer 1)]) }

/-- The range is that of the replaced text, and the line is read past its end. -/
theorem ansicolor_sink_reads_past_end :
    ¬ colouredSink.PrintsLine ⟨1, Zone.constant 0⟩ replacedMessage ∧
    (colouredSink.log ⟨1, Zone.constant 0⟩ replacedMessage).map (fun _ => ()) =
      .error .undefined := by
  refine ⟨?_, by decide +kernel⟩
  intro h
  have hline : (colouredSink.formatter.format ⟨1, Zone.constant 0⟩ replacedMessage ⟨[], 0, 0⟩).map
      Prod.snd = .ok ⟨ascii "\x7b\"k\":1\x7d\n", 0, 21⟩ := by decide +kernel
  cases hformat : colouredSink.formatter.format ⟨1, Zone.constant 0⟩ replacedMessage ⟨[], 0, 0⟩ with
  | error failure => simp [hformat, Except.map] at hline
  | ok result =>
      rw [hformat] at hline
      obtain ht : result.2 = ⟨ascii "\x7b\"k\":1\x7d\n", 0, 21⟩ := Except.ok.inj hline
      have hrange := (h result.1 result.2 hformat).1
      rw [ht] at hrange
      exact absurd (hrange ⟨rfl, by decide⟩).2 (by decide)

end AnsicolorSink

/-! ## Texts that are not replaced -/

/-- A populator with a pattern that cuts nothing off. -/
def Populator.NoCut : Populator → Prop
  | pattern _ pf => ∀ f ∈ pf.formatters, f.NoCut
  | loggerName _ pf => ∀ f ∈ pf.formatters, f.NoCut
  | _ => True

/-- A position in a populator's text is one in what is written. -/
theorem Populator.exists_entry_of_recorded {env : Environment} {msg : Record} {p : Populator}
    (hcut : p.NoCut) {m : ColorMark} (hm : m ∈ p.recorded env msg) (hpos : 0 < m.position) :
    ∃ text, (p.key, Json.string text) ∈ p.contribution env msg ∧ m.position ≤ text.length := by
  have hrendered {pf : PatternFormatter} (hcut : ∀ f ∈ pf.formatters, f.NoCut)
      (hm : m ∈ pf.recorded env msg) : m.position ≤ (pf.rendered env msg).length :=
    (position_le_of_mem_recordedAll hcut hm).trans (List.prefix_append _ _).length_le
  cases p with
  | pattern key pf => exact ⟨_, List.mem_singleton_self _, hrendered hcut hm⟩
  | loggerName key pf =>
      have hle := hrendered hcut hm
      refine ⟨pf.rendered env msg, ?_, hle⟩
      rw [contribution, if_pos (by omega)]
      exact List.mem_singleton_self _
  | pid | threadId | timestamp => cases hm

namespace JsonFormatter

/-- With different keys, no parameter under the key of a populator and nothing cut off, the
range fits: each position is in a text that is in the object. -/
theorem rangeFits_of_kept {env : Environment} {msg : Record} {jf : JsonFormatter}
    (hcut : ∀ p ∈ jf.populators, p.NoCut) (hkeys : DistinctKeys jf.populators)
    (hparams : ∀ p ∈ jf.populators, OrdMap.lastValue p.key (params msg) = none) :
    jf.RangeFits env msg := by
  refine .inr (ColorMark.lastStop_le ?_)
  intro m hm
  obtain ⟨p, hp, hm⟩ := List.mem_flatMap.mp hm
  rcases Nat.eq_zero_or_pos m.position with hzero | hpos
  · rw [hzero]
    exact Nat.zero_le _
  · obtain ⟨text, hentry, hlength⟩ := Populator.exists_entry_of_recorded (hcut p hp) hm hpos
    have hlookup : (jf.document env msg).lookup p.key = some (.string text) :=
      (document_describes hkeys env msg p.key (.string text)).mpr
        (.inr ⟨hparams p hp, p, hp, hentry⟩)
    rw [document, OrdMap.lookup_insertAll, OrdMap.lookup_empty, Option.or_none] at hlookup
    have hwidth := Json.width_le_objectWidth (OrdMap.mem_lastEntries.mpr hlookup)
    calc m.position ≤ text.length := hlength
      _ ≤ Json.stringWidth text := Json.length_le_stringWidth text
      _ ≤ Json.objectWidth (OrdMap.lastEntries (jf.contributions env msg)) := hwidth
      _ ≤ _ := Nat.le_add_right _ _

end JsonFormatter

end Structlog
