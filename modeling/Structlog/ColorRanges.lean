import Structlog.AnsicolorSink
import Structlog.EscapedText

/-!
# Coloured lines of a pattern

`%^` and `%$` record where the buffer ends at that moment, and `%+` records where the level
it writes begins and ends.  What is recorded later replaces what is recorded before, a start
and an end each by itself, so that the range of a line consists of the last start and the last
end (`ColorMark.lastStart`, `ColorMark.lastStop`), in whatever order they stand.

Formatters that cut nothing off make the buffer longer.  Then no position that is recorded is
behind the end of the line (`position_le_of_mem_recordedAll`), and the sink prints the line
with the codes around the last range, or as it is if that range is empty
(`color_codes_enclose_last_range`).
-/

namespace Structlog

open Lib

/-! ## What is recorded -/

/-- A position that a formatter puts into the message. -/
inductive ColorMark
  | start (position : ℕ)
  | stop (position : ℕ)
  deriving DecidableEq, Repr

namespace ColorMark

def position : ColorMark → ℕ
  | start position | stop position => position

def start? : ColorMark → Option ℕ
  | start position => some position
  | stop _ => none

def stop? : ColorMark → Option ℕ
  | start _ => none
  | stop position => some position

/-- The start that is recorded last; the sink has set it to 0 before. -/
def lastStart (marks : List ColorMark) : ℕ := (marks.filterMap start?).getLast?.getD 0

/-- The end that is recorded last; the sink has set it to 0 before. -/
def lastStop (marks : List ColorMark) : ℕ := (marks.filterMap stop?).getLast?.getD 0

theorem position_of_start? {m : ColorMark} {n : ℕ} (h : m.start? = some n) : m.position = n := by
  cases m with
  | start position => exact Option.some.inj h
  | stop position => cases h

theorem position_of_stop? {m : ColorMark} {n : ℕ} (h : m.stop? = some n) : m.position = n := by
  cases m with
  | start position => cases h
  | stop position => exact Option.some.inj h

theorem getD_getLast?_le {kind : ColorMark → Option ℕ}
    (hkind : ∀ {m n}, kind m = some n → m.position = n) {marks : List ColorMark} {bound : ℕ}
    (h : ∀ m ∈ marks, m.position ≤ bound) :
    (marks.filterMap kind).getLast?.getD 0 ≤ bound := by
  cases hlast : (marks.filterMap kind).getLast? with
  | none => exact Nat.zero_le bound
  | some n =>
      obtain ⟨m, hm, hn⟩ := List.mem_filterMap.mp (List.mem_of_getLast? hlast)
      have hposition : m.position = n := hkind hn
      exact hposition ▸ h m hm

theorem lastStart_le {marks : List ColorMark} {bound : ℕ} (h : ∀ m ∈ marks, m.position ≤ bound) :
    lastStart marks ≤ bound :=
  getD_getLast?_le position_of_start? h

theorem lastStop_le {marks : List ColorMark} {bound : ℕ} (h : ∀ m ∈ marks, m.position ≤ bound) :
    lastStop marks ≤ bound :=
  getD_getLast?_le position_of_stop? h

end ColorMark

/-- What a formatter records that has found so many bytes. -/
def FlagFormatter.recorded (msg : Record) (tm : Tm) (position : ℕ) :
    FlagFormatter → List ColorMark
  | colorStart => [.start position]
  | colorStop => [.stop position]
  | full cacheTimestamp cachedDatetime =>
      let level := position +
        (fullHead (currentDatetime msg tm cacheTimestamp cachedDatetime) msg).length
      [.start level, .stop (level + msg.level.toStringView.length)]
  | _ => []

/-- What all formatters record, each behind what those before it have written. -/
def recordedAll (pid : ℤ) (msg : Record) (tm : Tm) : Bytes → List FlagFormatter → List ColorMark
  | _, [] => []
  | dest, f :: rest =>
      f.recorded msg tm dest.length ++ recordedAll pid msg tm (f.after pid msg tm dest) rest

/-- What the formatters of a pattern record in an empty buffer. -/
def PatternFormatter.recorded (env : Environment) (msg : Record) (pf : PatternFormatter) :
    List ColorMark :=
  recordedAll env.pid msg (pf.refresh env msg).cachedTm [] pf.formatters

/-! ## The colour range is what is recorded last -/

/-- A colour range after more has been recorded. -/
def ColorRange.record (range : ColorRange) (marks : List ColorMark) : ColorRange where
  start := (marks.filterMap ColorMark.start?).getLast?.getD range.start
  stop := (marks.filterMap ColorMark.stop?).getLast?.getD range.stop

theorem ColorRange.record_append (range : ColorRange) (first second : List ColorMark) :
    range.record (first ++ second) = (range.record first).record second := by
  simp only [record, List.filterMap_append, List.getLast?_append]
  congr 1
  · cases (second.filterMap ColorMark.start?).getLast? <;> rfl
  · cases (second.filterMap ColorMark.stop?).getLast? <;> rfl

theorem FlagFormatter.mark_eq (msg : Record) (tm : Tm) (position : ℕ) (range : ColorRange)
    (f : FlagFormatter) :
    f.mark msg tm position range = range.record (f.recorded msg tm position) := by
  cases f <;> rfl

theorem marks_eq {pid : ℤ} {msg : Record} {tm : Tm} {formatters : List FlagFormatter}
    {dest : Bytes} (range : ColorRange) (h : Formats pid msg tm dest.length formatters) :
    marks pid msg tm dest.length range formatters =
      range.record (recordedAll pid msg tm dest formatters) := by
  induction formatters generalizing dest range with
  | nil => rfl
  | cons f rest ih =>
      obtain ⟨-, hgrowth, hrest⟩ := h
      -- `marks` counts the bytes, `recordedAll` has them
      have hlength := FlagFormatter.length_after hgrowth
      rw [← hlength] at hrest
      rw [marks, recordedAll, ColorRange.record_append, ← hlength, ih _ hrest, Int.toNat_natCast,
        FlagFormatter.mark_eq]

/-! ## The buffer grows -/

theorem Field.growth_nonneg {padinfo : PaddingInfo} (h : padinfo.truncate = false)
    (field : Field) : 0 ≤ field.growth padinfo := by
  unfold growth
  split_ifs with hpadded
  · rcases hpadded.2 with hnarrow | htruncate
    · omega
    · rw [h] at htruncate
      cases htruncate
  · exact Int.natCast_nonneg _

namespace FlagFormatter

theorem NoCut.growth_nonneg {f : FlagFormatter} (h : f.NoCut) (pid : ℤ) (msg : Record) (tm : Tm) :
    0 ≤ f.growth pid msg tm := by
  cases f with
  | field flag padinfo =>
      rw [growth, padded]
      cases (flag.field pid msg tm).toOption.join with
      | none => exact Int.natCast_nonneg _
      | some made => exact made.growth_nonneg h
  | z padinfo lastUpdate offsetMinutes => exact Field.growth_nonneg h _
  | elapsed units padinfo lastMessageTime => exact Field.growth_nonneg h _
  | ch c | aggregate str | colorStart | colorStop | full cacheTimestamp cachedDatetime =>
      exact Int.natCast_nonneg _

/-- A formatter records positions in what it leaves. -/
theorem position_le_of_mem_recorded (pid : ℤ) {msg : Record} {tm : Tm} {dest : Bytes}
    {f : FlagFormatter} {m : ColorMark} (hm : m ∈ f.recorded msg tm dest.length) :
    m.position ≤ (f.after pid msg tm dest).length := by
  cases f with
  | colorStart | colorStop =>
      obtain rfl := List.mem_singleton.mp hm
      exact (List.prefix_append dest _).length_le
  | full cacheTimestamp cachedDatetime =>
      have hlevel : m.position ≤ dest.length +
          (fullHead (currentDatetime msg tm cacheTimestamp cachedDatetime) msg).length +
            msg.level.toStringView.length := by
        rcases List.mem_cons.mp hm with rfl | hm
        · exact Nat.le_add_right _ _
        · obtain rfl := List.mem_singleton.mp hm
          exact le_rfl
      refine hlevel.trans ?_
      simp only [after, padded, plainText, List.length_append]
      omega
  | field | z | elapsed | ch | aggregate => cases hm

theorem readable_next (msg other : Record) (tm : Tm) (f : FlagFormatter) :
    (f.next msg tm).Readable other ↔ f.Readable other := by
  cases f <;> exact Iff.rfl

theorem NoCut.length_le_after {f : FlagFormatter} (h : f.NoCut) (pid : ℤ) (msg : Record) (tm : Tm)
    (dest : Bytes) : dest.length ≤ (f.after pid msg tm dest).length := by
  have hgrowth := h.growth_nonneg pid msg tm
  have hroom : 0 ≤ (dest.length : ℤ) + f.growth pid msg tm := by omega
  have hlength := length_after hroom
  omega

end FlagFormatter

theorem length_le_afterAll {pid : ℤ} {msg : Record} {tm : Tm} {formatters : List FlagFormatter}
    (h : ∀ f ∈ formatters, f.NoCut) (dest : Bytes) :
    dest.length ≤ (afterAll pid msg tm formatters dest).length := by
  induction formatters generalizing dest with
  | nil => exact le_rfl
  | cons f rest ih =>
      obtain ⟨hfirst, hrest⟩ := List.forall_mem_cons.mp h
      exact (hfirst.length_le_after pid msg tm dest).trans (ih hrest _)

theorem position_le_of_mem_recordedAll {pid : ℤ} {msg : Record} {tm : Tm}
    {formatters : List FlagFormatter} (h : ∀ f ∈ formatters, f.NoCut) {dest : Bytes}
    {m : ColorMark} (hm : m ∈ recordedAll pid msg tm dest formatters) :
    m.position ≤ (afterAll pid msg tm formatters dest).length := by
  induction formatters generalizing dest with
  | nil => cases hm
  | cons f rest ih =>
      obtain ⟨-, hrest⟩ := List.forall_mem_cons.mp h
      rcases List.mem_append.mp hm with hm | hm
      · exact (FlagFormatter.position_le_of_mem_recorded pid hm).trans
          (length_le_afterAll hrest _)
      · exact ih hrest hm

/-- Nothing is cut, so all that can fail is a null string. -/
theorem formats_iff {pid : ℤ} {msg : Record} {tm : Tm} {formatters : List FlagFormatter}
    (h : ∀ f ∈ formatters, f.NoCut) {position : ℤ} (hposition : 0 ≤ position) :
    Formats pid msg tm position formatters ↔ ∀ f ∈ formatters, f.Readable msg := by
  induction formatters generalizing position with
  | nil => exact iff_of_true trivial fun f hf => nomatch hf
  | cons f rest ih =>
      obtain ⟨hfirst, hrest⟩ := List.forall_mem_cons.mp h
      have hgrown : 0 ≤ position + f.growth pid msg tm :=
        add_nonneg hposition (hfirst.growth_nonneg pid msg tm)
      rw [Formats, and_iff_right hgrown, ih hrest hgrown, List.forall_mem_cons]

namespace PatternFormatter

/-- A line that is formatted, with the range that is recorded last. -/
theorem format_noCut (env : Environment) {msg : Record} {pf : PatternFormatter}
    (hcut : ∀ f ∈ pf.formatters, f.NoCut) (hread : ∀ f ∈ pf.formatters, f.Readable msg) :
    pf.format env msg .empty =
      .ok ({ pf.refresh env msg with
          formatters := pf.formatters.map (·.next msg (pf.refresh env msg).cachedTm) },
        { dest := afterAll env.pid msg (pf.refresh env msg).cachedTm pf.formatters [] ++ pf.eol
          colorRangeStart := ColorMark.lastStart (pf.recorded env msg)
          colorRangeEnd := ColorMark.lastStop (pf.recorded env msg) }) := by
  have hformats : Formats env.pid msg (pf.refresh env msg).cachedTm ([] : Bytes).length
      pf.formatters := (formats_iff hcut le_rfl).mpr hread
  have hempty : Target.empty = (⟨0, 0⟩ : ColorRange).over [] := rfl
  rw [format_eq, hempty, formatAll_ok _ hformats, marks_eq _ hformats]
  rfl

theorem format_null (env : Environment) {msg : Record} {pf : PatternFormatter}
    (hcut : ∀ f ∈ pf.formatters, f.NoCut) (hnull : ¬ ∀ f ∈ pf.formatters, f.Readable msg) :
    ∃ failure, pf.format env msg .empty = .error failure := by
  have hformats : ¬ Formats env.pid msg (pf.refresh env msg).cachedTm ([] : Bytes).length
      pf.formatters := mt (formats_iff hcut le_rfl).mp hnull
  obtain ⟨failure, hfailed⟩ := formatAll_failed ⟨0, 0⟩ hformats
  have hempty : Target.empty = (⟨0, 0⟩ : ColorRange).over [] := rfl
  exact ⟨failure, by rw [format_eq, hempty, hfailed]; rfl⟩

/-- A message is rendered exactly if no null string is read. -/
theorem exists_render_iff {env : Environment} {msg : Record} {pf : PatternFormatter}
    (hcut : ∀ f ∈ pf.formatters, f.NoCut) :
    (∃ made, pf.render env msg = .ok made) ↔ ∀ f ∈ pf.formatters, f.Readable msg := by
  by_cases hread : ∀ f ∈ pf.formatters, f.Readable msg
  · exact iff_of_true ⟨_, by rw [render, written, format_noCut env hcut hread]; rfl⟩ hread
  · obtain ⟨failure, hfailed⟩ := format_null env hcut hread
    refine iff_of_false ?_ hread
    rintro ⟨made, hmade⟩
    rw [render, written, hfailed] at hmade
    cases hmade

/-- The last range is in the line that is rendered. -/
theorem format_of_render {env : Environment} {msg : Record} {pf pf' : PatternFormatter}
    {line : Bytes} (hcut : ∀ f ∈ pf.formatters, f.NoCut)
    (hrender : pf.render env msg = .ok (pf', line)) :
    pf.format env msg .empty = .ok (pf', ⟨line, ColorMark.lastStart (pf.recorded env msg),
        ColorMark.lastStop (pf.recorded env msg)⟩) ∧
      ∀ m ∈ pf.recorded env msg, m.position ≤ line.length := by
  have hread := (exists_render_iff hcut).mp ⟨_, hrender⟩
  have hformat := format_noCut env hcut hread
  rw [render, written, hformat] at hrender
  obtain ⟨rfl, rfl⟩ := Prod.mk.inj (Except.ok.inj hrender)
  refine ⟨hformat, fun m hm => (position_le_of_mem_recordedAll hcut hm).trans ?_⟩
  exact (List.prefix_append _ _).length_le

end PatternFormatter

/-! ## What the sink prints -/

/-- The sink formats into an empty buffer. -/
theorem Formatter.format_pattern (env : Environment) (msg : Record) (pf : PatternFormatter) :
    (pattern pf).format env msg ⟨[], 0, 0⟩ =
      (pf.format env msg .empty).map fun made => (pattern made.1, made.2) := rfl

namespace AnsicolorSink

/-- A line with the codes around the range between two positions, or without them if the range
is empty. -/
def Encloses (code line printed : Bytes) (start stop : ℕ) : Prop :=
  (start < stop ∧ ∃ before middle after,
    line = before ++ middle ++ after ∧
    before.length = start ∧ (before ++ middle).length = stop ∧
    printed = before ++ code ++ middle ++ reset ++ after) ∨
  (stop ≤ start ∧ printed = line)

theorem log_encloses {env : Environment} {msg : Record} {sink : AnsicolorSink}
    {formatter : Formatter} {t : Target} (hcolors : sink.shouldDoColors = true)
    (hformat : sink.formatter.format env msg ⟨[], 0, 0⟩ = .ok (formatter, t))
    (hstop : t.colorRangeEnd ≤ t.dest.length) :
    ∃ sink' printed, sink.log env msg = .ok sink' ∧
      sink'.targetFile = sink.targetFile ++ printed ∧
      Encloses (sink.colors msg.level) t.dest printed t.colorRangeStart t.colorRangeEnd := by
  by_cases hrange : t.colorRangeEnd > t.colorRangeStart
  · refine ⟨_, _, log_coloured hformat ⟨hcolors, hrange⟩ hstop, rfl, Or.inl ⟨hrange, ?_⟩⟩
    refine ⟨_, _, _, cut_in_three t.dest hrange.le, ?_, ?_, rfl⟩
    · rw [List.length_take]
      omega
    · rw [List.length_append, List.length_take, List.length_take, List.length_drop]
      omega
  · -- an empty range: the line without codes
    exact ⟨_, _, log_plain hformat fun h => hrange h.2, rfl, Or.inr ⟨not_lt.mp hrange, rfl⟩⟩

/-- After a message the sink has the formatter as it is after the line. -/
theorem formatter_of_log {env : Environment} {msg : Record} {sink sink' : AnsicolorSink}
    (h : sink.log env msg = .ok sink') :
    ∃ t, sink.formatter.format env msg ⟨[], 0, 0⟩ = .ok (sink'.formatter, t) := by
  cases hformat : sink.formatter.format env msg ⟨[], 0, 0⟩ with
  | error failure =>
      rw [log, hformat] at h
      cases h
  | ok made =>
      obtain ⟨formatter, t⟩ := made
      by_cases hcolors : sink.shouldDoColors = true ∧ t.colorRangeEnd > t.colorRangeStart
      · by_cases hstop : t.colorRangeEnd ≤ t.dest.length
        · rw [log_coloured hformat hcolors hstop] at h
          obtain rfl := Except.ok.inj h
          exact ⟨t, rfl⟩
        · rw [log_undefined hformat hcolors (not_le.mp hstop)] at h
          cases h
      · rw [log_plain hformat hcolors] at h
        obtain rfl := Except.ok.inj h
        exact ⟨t, rfl⟩

/-- A call on the sink. -/
inductive Call
  | log (msg : Record)
  | setColorMode (terminal : Bool) (mode : ColorMode)
  | setColor (colorLevel : Level) (color : Bytes)

def step (env : Environment) (sink : AnsicolorSink) : Call → Except Failure (AnsicolorSink × Unit)
  | .log msg => (sink.log env msg).map fun sink' => (sink', ())
  | .setColorMode terminal mode => .ok (sink.setColorMode terminal mode, ())
  | .setColor colorLevel color => .ok (sink.setColor colorLevel color, ())

/-- The formatter is of a pattern that cuts nothing off, and reads what `formatters` read. -/
def Keeps (formatters : List FlagFormatter) (sink : AnsicolorSink) : Prop :=
  ∃ pf, sink.formatter = .pattern pf ∧ (∀ f ∈ pf.formatters, f.NoCut) ∧
    ∀ msg, (∀ f ∈ pf.formatters, f.Readable msg) ↔ ∀ f ∈ formatters, f.Readable msg

theorem Keeps.log {formatters : List FlagFormatter} {env : Environment} {msg : Record}
    {sink sink' : AnsicolorSink} (h : sink.Keeps formatters) (hlog : sink.log env msg = .ok sink') :
    sink'.Keeps formatters := by
  obtain ⟨pf, hpf, hcut, hread⟩ := h
  obtain ⟨t, hformat⟩ := formatter_of_log hlog
  rw [hpf, Formatter.format_pattern] at hformat
  by_cases hnow : ∀ f ∈ pf.formatters, f.Readable msg
  · rw [PatternFormatter.format_noCut env hcut hnow] at hformat
    obtain ⟨hnext, -⟩ := Prod.mk.inj (Except.ok.inj hformat)
    refine ⟨_, hnext.symm, ?_, fun other => ?_⟩
    · intro f hf
      obtain ⟨before, hbefore, rfl⟩ := List.mem_map.mp hf
      exact (hcut before hbefore).next msg _
    · rw [← hread other, List.forall_mem_map]
      exact forall₂_congr fun f _ => f.readable_next msg other _
  · -- a null string: the message has not been logged
    obtain ⟨failure, hfailed⟩ := PatternFormatter.format_null env hcut hnow
    rw [hfailed] at hformat
    cases hformat

theorem Keeps.step {formatters : List FlagFormatter} {env : Environment} {sink : AnsicolorSink}
    (h : sink.Keeps formatters) {call : Call} {sink' : AnsicolorSink}
    (hstep : sink.step env call = .ok (sink', ())) : sink'.Keeps formatters := by
  cases call with
  | log msg =>
      cases hlog : sink.log env msg with
      | error failure =>
          rw [AnsicolorSink.step, hlog] at hstep
          cases hstep
      | ok logged =>
          rw [AnsicolorSink.step, hlog] at hstep
          obtain ⟨rfl, -⟩ := Prod.mk.inj (Except.ok.inj hstep)
          exact h.log hlog
  | setColorMode terminal mode =>
      obtain ⟨rfl, -⟩ := Prod.mk.inj (Except.ok.inj hstep)
      exact h
  | setColor colorLevel color =>
      obtain ⟨rfl, -⟩ := Prod.mk.inj (Except.ok.inj hstep)
      exact h

/-- With `color_mode::always` and a pattern that cuts nothing off, whatever has been called
before: a message is rendered exactly if no null string is read, the last start and the last end
that are recorded are in the line, and the line is printed with the codes around the range from
the one to the other if that is not empty, and else as it is. -/
theorem color_codes_enclose_last_range (env : Environment) (now : ℤ) (pattern : Bytes)
    (hcut : ∀ f ∈ compilePattern now pattern, f.NoCut) (timeType : PatternTimeType) (eol : Bytes)
    (sink : AnsicolorSink) (calls : List Call) :
    ∀ p ∈ Runs.reached (step env)
        (sink.setFormatter (.pattern (.new now pattern timeType eol))) calls,
      ∃ pf, p.1.formatter = .pattern pf ∧ ∀ (msg : Record) (terminal : Bool),
        ((∃ made, pf.render env msg = .ok made) ↔
          ∀ f ∈ compilePattern now pattern, f.Readable msg) ∧
        ∀ pf' line, pf.render env msg = .ok (pf', line) →
          let start := ColorMark.lastStart (pf.recorded env msg)
          let stop := ColorMark.lastStop (pf.recorded env msg)
          start ≤ line.length ∧ stop ≤ line.length ∧
          ∃ sink' printed, (p.1.setColorMode terminal .always).log env msg = .ok sink' ∧
            sink'.targetFile = p.1.targetFile ++ printed ∧
            Encloses (p.1.colors msg.level) line printed start stop := by
  have hnew : (sink.setFormatter (.pattern (.new now pattern timeType eol))).Keeps
      (compilePattern now pattern) := ⟨_, rfl, hcut, fun msg => Iff.rfl⟩
  intro p hp
  obtain ⟨pf, hpf, hkept, hread⟩ := Runs.invariant_of_reached
    (fun call _ s s' _ hs hstep => Keeps.step hs hstep) hnew p hp
  refine ⟨pf, hpf, fun msg terminal => ⟨?_, ?_⟩⟩
  · rw [PatternFormatter.exists_render_iff hkept, hread msg]
  · intro pf' line hrender
    obtain ⟨hformat, hpositions⟩ := PatternFormatter.format_of_render hkept hrender
    have hstop := ColorMark.lastStop_le hpositions
    refine ⟨ColorMark.lastStart_le hpositions, hstop, ?_⟩
    have hline : (p.1.setColorMode terminal .always).formatter.format env msg ⟨[], 0, 0⟩ =
        .ok (.pattern pf', ⟨line, ColorMark.lastStart (pf.recorded env msg),
          ColorMark.lastStop (pf.recorded env msg)⟩) := by
      change Formatter.format env msg ⟨[], 0, 0⟩ p.1.formatter = _
      rw [hpf, Formatter.format_pattern, hformat]
      rfl
    exact log_encloses rfl hline hstop

/-- A pattern with an end in front and a start too many. -/
def markedPattern : Bytes := ascii "%$[%^%n] %^%8l%$ %v"

def markedSink : AnsicolorSink :=
  (new 0 false .automatic).setFormatter (.pattern (.new 0 markedPattern .utc (ascii "\n")))

def markedMessage : Record := LogMsg.new 0 7 {} (ascii "net") .info (ascii "up")

theorem color_codes_enclose_last_range_marked :
    ∃ sink' printed,
      (markedSink.setColorMode false .always).log ⟨1, Zone.constant 0⟩ markedMessage = .ok sink' ∧
      sink'.targetFile = [] ++ printed ∧
      Encloses (ascii "\x1b[32m") (ascii "[net]     info up\n") printed 6 14 := by
  have hcut : ∀ f ∈ compilePattern 0 markedPattern, f.NoCut :=
    noCut_of_mem_compilePattern 0 (by decide)
  obtain ⟨pf, hpf, h⟩ := color_codes_enclose_last_range ⟨1, Zone.constant 0⟩ 0 markedPattern
    hcut .utc (ascii "\n") (new 0 false .automatic) [.log markedMessage]
    (markedSink, .log markedMessage) (by rw [Runs.reached]; split <;> exact List.mem_cons_self)
  obtain rfl : PatternFormatter.new 0 markedPattern .utc (ascii "\n") = pf :=
    Formatter.pattern.inj hpf
  exact ((h markedMessage false).2 _ (ascii "[net]     info up\n") rfl).2.2

end AnsicolorSink

end Structlog
