import Structlog.JsonFormatter

/-!
# `ansicolor_sink`

The sink resets the colour range of a message, lets the formatter write a line and
prints the line with the range between two escape codes.  A JSON formatter does not
set the range for its line: what a pattern with colour flags leaves there are
positions in the text of one populator.  The text of that populator need not be in
the line at all, as a parameter with the same key replaces it.

A line that is formatted is printed exactly if the range is empty or ends in it
(`printsLine_iff`).  `printsLine_json_iff` is that for a JSON formatter; how the range
and the length of the line depend on populators and message is left to `JsonColors`,
and the range of a pattern to `ColorRanges`.
-/

namespace Structlog

open Lib

/-- The formatters a sink can be given. -/
inductive Formatter
  | json (jf : JsonFormatter)
  | pattern (pf : PatternFormatter)

def Formatter.format (env : Environment) (msg : Record) (t : Target) :
    Formatter → Except Failure (Formatter × Target)
  | json jf => (jf.format env msg t).map fun result => (json result.1, result.2)
  | pattern pf => (pf.format env msg t).map fun result => (pattern result.1, result.2)

inductive ColorMode
  | always
  | automatic
  | never
  deriving DecidableEq, Repr

/-- `ansicolor_sink`, with what is on the target file so far. -/
structure AnsicolorSink where
  targetFile : Bytes
  shouldDoColors : Bool
  formatter : Formatter
  colors : Level → Bytes

namespace AnsicolorSink

/-! ## The sink -/

def reset : Bytes := ascii "\x1b[m"

/-- The colours the constructor sets. -/
def defaultColors : Level → Bytes
  | .trace => ascii "\x1b[37m"
  | .debug => ascii "\x1b[36m"
  | .info => ascii "\x1b[32m"
  | .warn => ascii "\x1b[33m\x1b[1m"
  | .err => ascii "\x1b[31m\x1b[1m"
  | .critical => ascii "\x1b[1m\x1b[41m"
  | .off => reset

/-- `set_color_mode`; `terminal` is what `in_terminal` and `is_color_terminal` say. -/
def setColorMode (terminal : Bool) (mode : ColorMode) (sink : AnsicolorSink) : AnsicolorSink :=
  { sink with
    shouldDoColors :=
      match mode with
      | .always => true
      | .automatic => terminal
      | .never => false }

def setColor (colorLevel : Level) (color : Bytes) (sink : AnsicolorSink) : AnsicolorSink :=
  { sink with colors := Function.update sink.colors colorLevel color }

def setFormatter (formatter : Formatter) (sink : AnsicolorSink) : AnsicolorSink :=
  { sink with formatter }

/-- `ansicolor_sink(target_file, mode)`, with the JSON formatter as the default. -/
def new (now : ℤ) (terminal : Bool) (mode : ColorMode) : AnsicolorSink :=
  setColorMode terminal mode
    { targetFile := []
      shouldDoColors := false
      formatter := .json (.new now (ascii "\n"))
      colors := defaultColors }

/-- `print_range_`.  `end - start` is unsigned, so a range that is not in the
buffer is read past its end. -/
def printRange (formatted : Bytes) (start stop : ℕ) (file : Bytes) : Except Failure Bytes :=
  if start ≤ stop ∧ stop ≤ formatted.length then
    .ok (file ++ (formatted.drop start).take (stop - start))
  else .error .undefined

/-- `print_ccode_`. -/
def printCcode (colorCode : Bytes) (file : Bytes) : Bytes := file ++ colorCode

/-- `log`. -/
def log (env : Environment) (msg : Record) (sink : AnsicolorSink) :
    Except Failure AnsicolorSink := do
  let (formatter, t) ← sink.formatter.format env msg ⟨[], 0, 0⟩
  let formatted := t.dest
  let file := sink.targetFile
  if sink.shouldDoColors ∧ t.colorRangeEnd > t.colorRangeStart then
    let file ← printRange formatted 0 t.colorRangeStart file
    let file := printCcode (sink.colors msg.level) file
    let file ← printRange formatted t.colorRangeStart t.colorRangeEnd file
    let file := printCcode reset file
    let file ← printRange formatted t.colorRangeEnd formatted.length file
    return { sink with formatter, targetFile := file }
  else
    let file ← printRange formatted 0 formatted.length file
    return { sink with formatter, targetFile := file }

/-! ## What is printed -/

/-- `printed` is the line, or it is that after two escape codes are removed. -/
def WithoutCodes (code printed line : Bytes) : Prop :=
  printed = line ∨ ∃ before middle after,
    line = before ++ middle ++ after ∧ printed = before ++ code ++ middle ++ reset ++ after

/-- Once the line is formatted, the colour range is in it if it is used, and the
line is printed with nothing but the codes added; the range of each `print_range_`
is in the line, as `log` returns. -/
def PrintsLine (env : Environment) (msg : Record) (sink : AnsicolorSink) : Prop :=
  ∀ formatter t, sink.formatter.format env msg ⟨[], 0, 0⟩ = .ok (formatter, t) →
    (sink.shouldDoColors ∧ t.colorRangeEnd > t.colorRangeStart →
      t.colorRangeStart ≤ t.dest.length ∧ t.colorRangeEnd ≤ t.dest.length) ∧
    ∃ sink' printed, sink.log env msg = .ok sink' ∧
      sink'.targetFile = sink.targetFile ++ printed ∧
      WithoutCodes (sink.colors msg.level) printed t.dest

theorem printRange_ok {formatted : Bytes} {start stop : ℕ} (hstart : start ≤ stop)
    (hstop : stop ≤ formatted.length) (file : Bytes) :
    printRange formatted start stop file =
      .ok (file ++ (formatted.drop start).take (stop - start)) :=
  if_pos ⟨hstart, hstop⟩

/-- A range within a line cuts it in three. -/
theorem cut_in_three (line : Bytes) {start stop : ℕ} (h : start ≤ stop) :
    line = line.take start ++ (line.drop start).take (stop - start) ++ line.drop stop := by
  have hrest : (line.drop start).drop (stop - start) = line.drop stop := by
    rw [List.drop_drop]
    congr 1
    omega
  calc line = line.take start ++ line.drop start := (List.take_append_drop start line).symm
    _ = line.take start ++ ((line.drop start).take (stop - start) ++
          (line.drop start).drop (stop - start)) := by
        rw [List.take_append_drop (stop - start)]
    _ = _ := by rw [hrest, List.append_assoc]

theorem log_plain {env : Environment} {msg : Record} {sink : AnsicolorSink}
    {formatter : Formatter} {t : Target}
    (hformat : sink.formatter.format env msg ⟨[], 0, 0⟩ = .ok (formatter, t))
    (hplain : ¬ (sink.shouldDoColors = true ∧ t.colorRangeEnd > t.colorRangeStart)) :
    sink.log env msg =
      .ok { sink with formatter := formatter, targetFile := sink.targetFile ++ t.dest } := by
  rw [log, hformat]
  dsimp only [bind, Except.bind]
  rw [if_neg hplain, printRange_ok (Nat.zero_le _) le_rfl, List.drop_zero, Nat.sub_zero,
    List.take_length]
  rfl

theorem log_coloured {env : Environment} {msg : Record} {sink : AnsicolorSink}
    {formatter : Formatter} {t : Target}
    (hformat : sink.formatter.format env msg ⟨[], 0, 0⟩ = .ok (formatter, t))
    (hcolors : sink.shouldDoColors = true ∧ t.colorRangeEnd > t.colorRangeStart)
    (hstop : t.colorRangeEnd ≤ t.dest.length) :
    sink.log env msg = .ok
      { sink with
        formatter := formatter
        targetFile := sink.targetFile ++ (t.dest.take t.colorRangeStart ++
          sink.colors msg.level ++
          (t.dest.drop t.colorRangeStart).take (t.colorRangeEnd - t.colorRangeStart) ++ reset ++
          t.dest.drop t.colorRangeEnd) } := by
  have hstart := hcolors.2
  have hrest : (t.dest.drop t.colorRangeEnd).take (t.dest.length - t.colorRangeEnd) =
      t.dest.drop t.colorRangeEnd := List.take_of_length_le (by rw [List.length_drop])
  rw [log, hformat]
  dsimp only [bind, Except.bind]
  rw [if_pos hcolors, printRange_ok (Nat.zero_le _) (by omega)]
  dsimp only
  rw [printRange_ok (by omega) hstop]
  dsimp only
  rw [printRange_ok hstop le_rfl, hrest]
  simp only [printCcode, pure, Except.pure, List.drop_zero, Nat.sub_zero, List.append_assoc]

theorem log_undefined {env : Environment} {msg : Record} {sink : AnsicolorSink}
    {formatter : Formatter} {t : Target}
    (hformat : sink.formatter.format env msg ⟨[], 0, 0⟩ = .ok (formatter, t))
    (hcolors : sink.shouldDoColors = true ∧ t.colorRangeEnd > t.colorRangeStart)
    (hstop : t.dest.length < t.colorRangeEnd) : sink.log env msg = .error .undefined := by
  rw [log, hformat]
  dsimp only [bind, Except.bind]
  rw [if_pos hcolors]
  by_cases hstart : t.colorRangeStart ≤ t.dest.length
  · have hbad : ¬ (t.colorRangeStart ≤ t.colorRangeEnd ∧ t.colorRangeEnd ≤ t.dest.length) := by
      omega
    rw [printRange_ok (Nat.zero_le _) hstart]
    dsimp only
    rw [printRange, if_neg hbad]
  · have hbad : ¬ (0 ≤ t.colorRangeStart ∧ t.colorRangeStart ≤ t.dest.length) := by omega
    rw [printRange, if_neg hbad]

/-- A formatted line is printed exactly if a colour range that is used ends in it. -/
theorem printsLine_iff {env : Environment} {msg : Record} {sink : AnsicolorSink}
    {formatter : Formatter} {t : Target}
    (hformat : sink.formatter.format env msg ⟨[], 0, 0⟩ = .ok (formatter, t)) :
    sink.PrintsLine env msg ↔
      (sink.shouldDoColors = true ∧ t.colorRangeEnd > t.colorRangeStart →
        t.colorRangeEnd ≤ t.dest.length) := by
  constructor
  · intro h hcolors
    exact ((h formatter t hformat).1 hcolors).2
  · intro hrange formatter' t' hformat'
    obtain ⟨rfl, rfl⟩ : formatter = formatter' ∧ t = t' := by
      simpa using hformat.symm.trans hformat'
    refine ⟨fun hcolors => ⟨hcolors.2.le.trans (hrange hcolors), hrange hcolors⟩, ?_⟩
    by_cases hcolors : sink.shouldDoColors = true ∧ t.colorRangeEnd > t.colorRangeStart
    · exact ⟨_, _, log_coloured hformat hcolors (hrange hcolors), rfl,
        Or.inr ⟨_, _, _, cut_in_three t.dest hcolors.2.le, rfl⟩⟩
    · exact ⟨_, _, log_plain hformat hcolors, rfl, Or.inl rfl⟩

/-- With a JSON formatter and `color_mode::always` the line is printed exactly if the
message is not formatted at all, or the colour range which the populators leave is empty
or ends within the line. -/
theorem printsLine_json_iff (env : Environment) (msg : Record) (terminal : Bool)
    (sink : AnsicolorSink) (jf : JsonFormatter) :
    ((sink.setFormatter (.json jf)).setColorMode terminal .always).PrintsLine env msg ↔
      (jf.Renders env msg →
        ∀ line, (Json.object (jf.document env msg).entries).dump = .ok line →
          let range := jf.rangeAfter env msg ⟨0, 0⟩
          range.stop ≤ range.start ∨ range.stop ≤ (line ++ jf.eol).length) := by
  -- without a line there is nothing to print
  have hfailed {failure : Failure} (h : jf.format env msg ⟨[], 0, 0⟩ = .error failure) :
      ((sink.setFormatter (.json jf)).setColorMode terminal .always).PrintsLine env msg := by
    intro formatter t hformat
    change (jf.format env msg ⟨[], 0, 0⟩).map _ = _ at hformat
    rw [h] at hformat
    cases hformat
  by_cases hrender : jf.Renders env msg
  · cases hdump : (Json.object (jf.document env msg).entries).dump with
    | error thrown =>
        have hthrew : jf.format env msg ⟨[], 0, 0⟩ = .error (.threw thrown) := by
          rw [JsonFormatter.format_eq hrender, hdump]
          rfl
        exact iff_of_true (hfailed hthrew) fun _ line hline => nomatch hline
    | ok line =>
        have hformat :
            ((sink.setFormatter (.json jf)).setColorMode terminal .always).formatter.format
                env msg ⟨[], 0, 0⟩ = .ok (.json (jf.next env msg),
              (jf.rangeAfter env msg ⟨0, 0⟩).over (line ++ jf.eol)) := by
          change (jf.format env msg ⟨[], 0, 0⟩).map _ = _
          rw [JsonFormatter.format_ok hrender hdump]
          rfl
        rw [printsLine_iff hformat]
        have halways :
            ((sink.setFormatter (.json jf)).setColorMode terminal .always).shouldDoColors = true :=
          rfl
        constructor
        · intro h _ line' hline'
          obtain rfl := Except.ok.inj hline'
          by_cases hempty :
              (jf.rangeAfter env msg ⟨0, 0⟩).stop ≤ (jf.rangeAfter env msg ⟨0, 0⟩).start
          · exact Or.inl hempty
          · exact Or.inr (h ⟨halways, not_le.mp hempty⟩)
        · rintro h ⟨-, hcolors⟩
          exact (h hrender line rfl).resolve_left (not_le.mpr hcolors)
  · obtain ⟨failure, hformat⟩ := JsonFormatter.format_failed hrender ⟨[], 0, 0⟩
    exact iff_of_true (hfailed hformat) fun h => absurd h hrender

end AnsicolorSink

end Structlog
