import Structlog.PatternFormatter

/-!
# What `pattern_formatter::format` does to its buffer

`format_eq` splits a flag formatter into its next state and what it does to the
buffer.  Two things are said about the latter.

The first is how long the buffer becomes.  A padder that is to cut takes off the
excess of the declared size, so a formatter changes the length by its `growth`,
which can be negative; it fails if the length would be (`write_ok`,
`write_failed`).  A colour mark is the length at that moment.

The second is what becomes of the bytes that were there.  A cut takes them away
if more is cut off than was written.  `Fits` is the condition under which that does
not happen, whatever the buffer holds, and `pattern_formatter_append_only_iff` is
about all formatters of a pattern.  It speaks of the pattern and the message only:
the flags that declare too much are `%D` always, `%c` on a date with a short day
and a short month, `%E` in the first seconds of the epoch, and `%@` and `%#` for a
line below zero (`Flag.shortfall`).
-/

namespace Structlog

open Lib FmtHelper

/-! ## One flag formatter -/

namespace FlagFormatter

/-- The offset `z_formatter` writes. -/
def currentOffset (msg : Record) (tm : Tm) (lastUpdate offsetMinutes : ℤ) : ℤ :=
  if msg.time - lastUpdate ≥ 10 * nanos then utcMinutesOffset tm else offsetMinutes

/-- The date `full_formatter` writes. -/
def currentDatetime (msg : Record) (tm : Tm) (cacheTimestamp : ℤ) (cachedDatetime : Bytes) :
    Bytes :=
  if cacheTimestamp ≠ msg.time.tdiv nanos ∨ cachedDatetime.length = 0 then fullDatetime tm
  else cachedDatetime

/-- The state after a message. -/
def next (msg : Record) (tm : Tm) : FlagFormatter → FlagFormatter
  | z padinfo lastUpdate offsetMinutes =>
      z padinfo (if msg.time - lastUpdate ≥ 10 * nanos then msg.time else lastUpdate)
        (currentOffset msg tm lastUpdate offsetMinutes)
  | elapsed units padinfo _ => elapsed units padinfo msg.time
  | full cacheTimestamp cachedDatetime =>
      full (msg.time.tdiv nanos) (currentDatetime msg tm cacheTimestamp cachedDatetime)
  | f => f

/-- What is done to the buffer. -/
def write (pid : ℤ) (msg : Record) (tm : Tm) (t : Target) : FlagFormatter → Except Failure Target
  | field flag padinfo => (flag.field pid msg tm).bind fun made => writeField padinfo made t
  | z padinfo lastUpdate offsetMinutes =>
      writeField padinfo (some (zField (currentOffset msg tm lastUpdate offsetMinutes))) t
  | elapsed units padinfo lastMessageTime =>
      writeField padinfo (some (elapsedField units lastMessageTime msg)) t
  | ch c => .ok (t.append [c])
  | aggregate str => .ok (t.append str)
  | colorStart => .ok { t with colorRangeStart := t.dest.length }
  | colorStop => .ok { t with colorRangeEnd := t.dest.length }
  | full cacheTimestamp cachedDatetime =>
      fullFormat (currentDatetime msg tm cacheTimestamp cachedDatetime) msg t

theorem with_state (f : FlagFormatter) (written : Except Failure Target) :
    (do return (f, ← written)) = written.map fun t' => (f, t') := by
  cases written <;> rfl

theorem format_eq (pid : ℤ) (msg : Record) (tm : Tm) (t : Target) (f : FlagFormatter) :
    f.format pid msg tm t = (f.write pid msg tm t).map fun t' => (f.next msg tm, t') := by
  cases f with
  | field flag padinfo =>
      rw [format, formatBy, write, Flag.field]
      cases flag.fieldBy basename pid msg tm with
      | error failure => rfl
      | ok made => exact with_state (field flag padinfo) (writeField padinfo made t)
  | z padinfo lastUpdate offsetMinutes =>
      rw [format, formatBy, write, next, currentOffset]
      split_ifs <;> exact with_state _ _
  | elapsed units padinfo lastMessageTime => exact with_state _ _
  | full cacheTimestamp cachedDatetime =>
      rw [format, formatBy, write, next, currentDatetime]
      split_ifs with hstale
      · exact with_state _ _
      · -- the cache is of this second
        obtain ⟨rfl, -⟩ : cacheTimestamp = msg.time.tdiv nanos ∧ cachedDatetime.length ≠ 0 := by
          simpa only [not_or, not_not] using hstale
        exact with_state _ _
  | ch c => rfl
  | aggregate str => rfl
  | colorStart => rfl
  | colorStop => rfl

/-- No null string is read. -/
def Readable (msg : Record) : FlagFormatter → Prop
  | field flag _ => flag.Readable msg
  | full _ _ => msg.source.empty = true ∨ msg.source.filename.isSome
  | _ => True

end FlagFormatter

/-- What `full_formatter` writes before the name of the level. -/
def fullHead (datetime : Bytes) (msg : Record) : Bytes :=
  datetime ++ pad3 (timeFraction 1000000 msg.time % 2 ^ 32).toNat ++ ascii "] " ++
    (if 0 < msg.loggerName.length then ascii "[" ++ msg.loggerName ++ ascii "] " else []) ++
    ascii "["

/-- `full_formatter` appends, and marks the level it writes. -/
theorem fullFormat_eq (datetime : Bytes) (msg : Record) (t : Target) :
    fullFormat datetime msg t = (fullSource msg).map fun source =>
      let head := t.dest ++ fullHead datetime msg
      { dest := head ++ msg.level.toStringView ++ ascii "] " ++ source ++ msg.payload
        colorRangeStart := head.length
        colorRangeEnd := (head ++ msg.level.toStringView).length } := by
  unfold fullFormat fullFormatBy fullSource fullHead
  cases fullSourceBy basename msg with
  | error failure => rfl
  | ok source =>
      by_cases hname : 0 < msg.loggerName.length
      · simp only [if_pos hname, Target.append, List.append_assoc]
        rfl
      · simp only [if_neg hname, Target.append, List.append_assoc]
        rfl

theorem fullSource_isOk_iff (msg : Record) :
    (∃ source, fullSource msg = .ok source) ↔
      msg.source.empty = true ∨ msg.source.filename.isSome := by
  unfold fullSource fullSourceBy
  cases msg.source.empty with
  | true => simp
  | false => cases msg.source.filename <;> simp

/-! ## The buffer after a formatter -/

/-- What a field makes of the buffer. -/
def Field.after (padinfo : PaddingInfo) (field : Field) (dest : Bytes) : Bytes :=
  let count := padinfo.width - field.fieldSize
  let excess := field.fieldSize - padinfo.width
  if !padinfo.enabled then dest ++ field.text
  else if field.fieldSize < padinfo.width then
    dest ++ spaces (padinfo.side.before count) ++ field.text ++
      spaces (count - padinfo.side.before count)
  else if padinfo.truncate then
    (dest ++ field.text).take ((dest ++ field.text).length - excess)
  else dest ++ field.text

/-- By how much a field lengthens the buffer. -/
def Field.growth (padinfo : PaddingInfo) (field : Field) : ℤ :=
  if padinfo.enabled ∧ (field.fieldSize < padinfo.width ∨ padinfo.truncate) then
    (field.text.length : ℤ) + padinfo.width - field.fieldSize
  else field.text.length

theorem length_spaces (count : ℕ) : (spaces count).length = count := List.length_replicate

theorem PadSide.before_le (count : ℕ) (side : PadSide) : side.before count ≤ count := by
  cases side <;> simp only [PadSide.before] <;> omega

theorem Field.length_after {padinfo : PaddingInfo} {field : Field} {dest : Bytes}
    (h : 0 ≤ (dest.length : ℤ) + field.growth padinfo) :
    ((field.after padinfo dest).length : ℤ) = dest.length + field.growth padinfo := by
  have hbefore := padinfo.side.before_le (padinfo.width - field.fieldSize)
  unfold growth at h ⊢
  unfold after
  cases henabled : padinfo.enabled with
  | false => simp
  | true =>
      by_cases hlt : field.fieldSize < padinfo.width
      · simp [hlt, length_spaces]
        omega
      · cases htruncate : padinfo.truncate with
        | false => simp [hlt]
        | true =>
            simp only [henabled, htruncate, or_true, and_true, if_true] at h
            simp [hlt]
            omega

theorem Field.write_ok {padinfo : PaddingInfo} {field : Field} {dest : Bytes}
    (h : 0 ≤ (dest.length : ℤ) + field.growth padinfo) :
    field.write padinfo dest = .ok (field.after padinfo dest) := by
  unfold growth at h
  unfold after
  cases henabled : padinfo.enabled with
  | false =>
      rw [Field.write, henabled]
      rfl
  | true =>
      by_cases hlt : field.fieldSize < padinfo.width
      · rw [Field.write_of_lt henabled hlt]
        simp [hlt]
      · rw [Field.write_of_le henabled (by omega)]
        cases htruncate : padinfo.truncate with
        | false => simp [hlt]
        | true =>
            simp only [henabled, htruncate, or_true, and_true, if_true] at h
            have hlong : ¬ (dest ++ field.text).length < field.fieldSize - padinfo.width := by
              rw [List.length_append]
              omega
            simp only [if_neg hlong, if_neg hlt, if_true, Bool.not_true, Bool.false_eq_true,
              if_false]

theorem Field.write_terminated {padinfo : PaddingInfo} {field : Field} {dest : Bytes}
    (h : (dest.length : ℤ) + field.growth padinfo < 0) :
    field.write padinfo dest = .error .terminated := by
  unfold growth at h
  split_ifs at h with hcut
  · obtain ⟨henabled, hcut⟩ := hcut
    have hle : padinfo.width ≤ field.fieldSize := by omega
    have htruncate : padinfo.truncate = true := hcut.resolve_left (by omega)
    have hshort : (dest ++ field.text).length < field.fieldSize - padinfo.width := by
      rw [List.length_append]
      omega
    rw [Field.write_of_le henabled hle]
    dsimp only
    rw [if_pos htruncate, if_pos hshort]
  · omega

/-- `color_range_start` and `color_range_end`. -/
structure ColorRange where
  start : ℕ
  stop : ℕ
  deriving DecidableEq, Repr

/-- A buffer with a colour range. -/
def ColorRange.over (dest : Bytes) (range : ColorRange) : Target := ⟨dest, range.start, range.stop⟩

namespace FlagFormatter

/-- The field that a formatter writes, with its padding, if it writes one. -/
def padded (pid : ℤ) (msg : Record) (tm : Tm) : FlagFormatter → Option (PaddingInfo × Field)
  | field flag padinfo => (flag.field pid msg tm).toOption.join.map (padinfo, ·)
  | z padinfo lastUpdate offsetMinutes =>
      some (padinfo, zField (currentOffset msg tm lastUpdate offsetMinutes))
  | elapsed units padinfo lastMessageTime =>
      some (padinfo, elapsedField units lastMessageTime msg)
  | _ => none

/-- The text that a formatter without a field appends. -/
def plainText (msg : Record) (tm : Tm) : FlagFormatter → Bytes
  | ch c => [c]
  | aggregate str => str
  | full cacheTimestamp cachedDatetime =>
      fullHead (currentDatetime msg tm cacheTimestamp cachedDatetime) msg ++
        msg.level.toStringView ++ ascii "] " ++ (fullSource msg).toOption.getD [] ++ msg.payload
  | _ => []

/-- The buffer after a formatter. -/
def after (pid : ℤ) (msg : Record) (tm : Tm) (dest : Bytes) (f : FlagFormatter) : Bytes :=
  match f.padded pid msg tm with
  | some (padinfo, made) => made.after padinfo dest
  | none => dest ++ f.plainText msg tm

/-- By how much a formatter lengthens the buffer. -/
def growth (pid : ℤ) (msg : Record) (tm : Tm) (f : FlagFormatter) : ℤ :=
  match f.padded pid msg tm with
  | some (padinfo, made) => made.growth padinfo
  | none => (f.plainText msg tm).length

/-- The colour range after a formatter that has found so many bytes. -/
def mark (msg : Record) (tm : Tm) (position : ℕ) (range : ColorRange) : FlagFormatter → ColorRange
  | colorStart => { range with start := position }
  | colorStop => { range with stop := position }
  | full cacheTimestamp cachedDatetime =>
      let start := position +
        (fullHead (currentDatetime msg tm cacheTimestamp cachedDatetime) msg).length
      ⟨start, start + msg.level.toStringView.length⟩
  | _ => range

theorem length_after {pid : ℤ} {msg : Record} {tm : Tm} {dest : Bytes} {f : FlagFormatter}
    (h : 0 ≤ (dest.length : ℤ) + f.growth pid msg tm) :
    ((f.after pid msg tm dest).length : ℤ) = dest.length + f.growth pid msg tm := by
  unfold after
  unfold growth at h ⊢
  cases hpadded : f.padded pid msg tm with
  | none => simp
  | some made =>
      rw [hpadded] at h
      exact Field.length_after h

theorem writeField_ok {padinfo : PaddingInfo} {field : Field} {dest : Bytes} {range : ColorRange}
    (h : 0 ≤ (dest.length : ℤ) + field.growth padinfo) :
    writeField padinfo (some field) (range.over dest) =
      .ok (range.over (field.after padinfo dest)) := by
  rw [writeField, ColorRange.over, Field.write_ok h]
  rfl

theorem writeField_failed {padinfo : PaddingInfo} {field : Field} {t : Target}
    (h : (t.dest.length : ℤ) + field.growth padinfo < 0) :
    writeField padinfo (some field) t = .error .terminated := by
  rw [writeField, Field.write_terminated h]
  rfl

/-- A formatter that has what it reads and cuts makes `after` of the buffer, and
`mark` of the colour range. -/
theorem write_ok {pid : ℤ} {msg : Record} {tm : Tm} {dest : Bytes} {f : FlagFormatter}
    (range : ColorRange) (hread : f.Readable msg)
    (hgrowth : 0 ≤ (dest.length : ℤ) + f.growth pid msg tm) :
    f.write pid msg tm (range.over dest) =
      .ok ((f.mark msg tm dest.length range).over (f.after pid msg tm dest)) := by
  cases f with
  | field flag padinfo =>
      rcases flag.field_cases pid msg tm with ⟨hnull, -⟩ | ⟨-, hfield, -⟩ | ⟨-, made, hfield⟩
      · exact absurd hread hnull
      · have hnone : (field flag padinfo).padded pid msg tm = none := by
          rw [padded, hfield]
          rfl
        rw [write, hfield, after, hnone]
        simp only [plainText, List.append_nil]
        rfl
      · have hsome : (field flag padinfo).padded pid msg tm = some (padinfo, made) := by
          rw [padded, hfield]
          rfl
        rw [growth, hsome] at hgrowth
        rw [write, hfield, after, hsome]
        exact writeField_ok hgrowth
  | z padinfo lastUpdate offsetMinutes => exact writeField_ok hgrowth
  | elapsed units padinfo lastMessageTime => exact writeField_ok hgrowth
  | ch c => rfl
  | aggregate str => rfl
  | colorStart | colorStop =>
      simp only [after, padded, plainText, List.append_nil]
      rfl
  | full cacheTimestamp cachedDatetime =>
      obtain ⟨source, hsource⟩ := (fullSource_isOk_iff msg).mpr hread
      have htext : (full cacheTimestamp cachedDatetime).after pid msg tm dest =
          dest ++ fullHead (currentDatetime msg tm cacheTimestamp cachedDatetime) msg ++
            msg.level.toStringView ++ ascii "] " ++ source ++ msg.payload := by
        simp only [after, padded, plainText, hsource, Except.toOption, Option.getD_some,
          List.append_assoc]
      rw [write, fullFormat_eq, hsource, htext]
      simp only [Except.map, ColorRange.over, mark, List.length_append]

theorem write_failed {pid : ℤ} {msg : Record} {tm : Tm} {t : Target} {f : FlagFormatter}
    (h : ¬ (f.Readable msg ∧ 0 ≤ (t.dest.length : ℤ) + f.growth pid msg tm)) :
    ∃ failure, f.write pid msg tm t = .error failure := by
  have hshrinks (hread : f.Readable msg) : (t.dest.length : ℤ) + f.growth pid msg tm < 0 := by
    by_contra hlong
    exact h ⟨hread, not_lt.mp hlong⟩
  -- only a field can shrink the buffer
  have hplain (hread : f.Readable msg) : f.padded pid msg tm ≠ none := by
    intro hnone
    have hneg := hshrinks hread
    rw [growth, hnone] at hneg
    dsimp only at hneg
    omega
  cases f with
  | field flag padinfo =>
      rcases flag.field_cases pid msg tm with
        ⟨-, hfield⟩ | ⟨hread, hfield, -⟩ | ⟨hread, made, hfield⟩
      · exact ⟨.undefined, by rw [write, hfield]; rfl⟩
      · exact absurd (by rw [padded, hfield]; rfl) (hplain hread)
      · have hneg := hshrinks hread
        simp only [growth, padded, hfield, Except.toOption, Option.join_some,
          Option.map_some] at hneg
        exact ⟨.terminated, by rw [write, hfield]; exact writeField_failed hneg⟩
  | z padinfo lastUpdate offsetMinutes => exact ⟨_, writeField_failed (hshrinks trivial)⟩
  | elapsed units padinfo lastMessageTime => exact ⟨_, writeField_failed (hshrinks trivial)⟩
  | full cacheTimestamp cachedDatetime =>
      cases hsource : fullSource msg with
      | error failure => exact ⟨failure, by rw [write, fullFormat_eq, hsource]; rfl⟩
      | ok source => exact absurd rfl (hplain ((fullSource_isOk_iff msg).mp ⟨source, hsource⟩))
  | ch c | aggregate str | colorStart | colorStop => exact absurd rfl (hplain trivial)

end FlagFormatter

/-! ## All formatters of a pattern -/

/-- No null string is read, and nothing is cut that is not there, when a buffer of
`position` bytes is written to. -/
def Formats (pid : ℤ) (msg : Record) (tm : Tm) : ℤ → List FlagFormatter → Prop
  | _, [] => True
  | position, f :: rest =>
      f.Readable msg ∧ 0 ≤ position + f.growth pid msg tm ∧
        Formats pid msg tm (position + f.growth pid msg tm) rest

/-- The colour range that the formatters mark. -/
def marks (pid : ℤ) (msg : Record) (tm : Tm) :
    ℤ → ColorRange → List FlagFormatter → ColorRange
  | _, range, [] => range
  | position, range, f :: rest =>
      marks pid msg tm (position + f.growth pid msg tm) (f.mark msg tm position.toNat range) rest

/-- The buffer after all of them. -/
def afterAll (pid : ℤ) (msg : Record) (tm : Tm) (formatters : List FlagFormatter)
    (dest : Bytes) : Bytes :=
  formatters.foldl (fun dest f => f.after pid msg tm dest) dest

namespace PatternFormatter

theorem formatAll_cons (pid : ℤ) (msg : Record) (tm : Tm) (f : FlagFormatter)
    (rest : List FlagFormatter) (t : Target) :
    formatAll pid msg tm (f :: rest) t = (f.write pid msg tm t).bind fun t' =>
      (formatAll pid msg tm rest t').map fun result => (f.next msg tm :: result.1, result.2) := by
  rw [formatAll, formatAllBy, ← FlagFormatter.format, FlagFormatter.format_eq]
  cases f.write pid msg tm t with
  | error failure => rfl
  | ok t' =>
      simp only [Except.map, Except.bind, bind, formatAll]
      cases formatAllBy basename pid msg tm rest t' <;> rfl

theorem format_eq (env : Environment) (msg : Record) (t : Target) (pf : PatternFormatter) :
    pf.format env msg t =
      (formatAll env.pid msg (pf.refresh env msg).cachedTm pf.formatters t).map fun result =>
        ({ pf.refresh env msg with formatters := result.1 }, result.2.append pf.eol) := by
  have hrest : (pf.refresh env msg).formatters = pf.formatters ∧
      (pf.refresh env msg).eol = pf.eol := by
    unfold refresh
    dsimp only
    split_ifs <;> exact ⟨rfl, rfl⟩
  rw [format, formatBy, formatAll]
  dsimp only
  rw [hrest.1, hrest.2]
  cases formatAllBy basename env.pid msg (pf.refresh env msg).cachedTm pf.formatters t <;> rfl

/-- The loop ends if `Formats`. -/
theorem formatAll_ok {pid : ℤ} {msg : Record} {tm : Tm} {formatters : List FlagFormatter}
    {dest : Bytes} (range : ColorRange) (h : Formats pid msg tm dest.length formatters) :
    formatAll pid msg tm formatters (range.over dest) =
      .ok (formatters.map (·.next msg tm),
        (marks pid msg tm dest.length range formatters).over
          (afterAll pid msg tm formatters dest)) := by
  induction formatters generalizing dest range with
  | nil => rfl
  | cons f rest ih =>
      obtain ⟨hread, hgrowth, hrest⟩ := h
      have hlength := FlagFormatter.length_after hgrowth
      rw [← hlength] at hrest
      rw [formatAll_cons, FlagFormatter.write_ok range hread hgrowth, Except.bind, ih _ hrest,
        marks, ← hlength, Int.toNat_natCast]
      rfl

/-- Otherwise it fails. -/
theorem formatAll_failed {pid : ℤ} {msg : Record} {tm : Tm} {formatters : List FlagFormatter}
    {dest : Bytes} (range : ColorRange) (h : ¬ Formats pid msg tm dest.length formatters) :
    ∃ failure, formatAll pid msg tm formatters (range.over dest) = .error failure := by
  induction formatters generalizing dest range with
  | nil => exact absurd trivial h
  | cons f rest ih =>
      rw [formatAll_cons]
      by_cases hfirst : f.Readable msg ∧ 0 ≤ (dest.length : ℤ) + f.growth pid msg tm
      · obtain ⟨hread, hgrowth⟩ := hfirst
        have hrest : ¬ Formats pid msg tm (f.after pid msg tm dest).length rest := by
          intro hrest
          rw [FlagFormatter.length_after hgrowth] at hrest
          exact h ⟨hread, hgrowth, hrest⟩
        obtain ⟨failure, hformat⟩ := ih (f.mark msg tm dest.length range) hrest
        refine ⟨failure, ?_⟩
        rw [FlagFormatter.write_ok range hread hgrowth, Except.bind, hformat]
        rfl
      · obtain ⟨failure, hwrite⟩ := FlagFormatter.write_failed (t := range.over dest) hfirst
        exact ⟨failure, by rw [hwrite]; rfl⟩

end PatternFormatter

/-! ## What stays of the buffer -/

/-- What is cut off is never more than was written, and no null string is read. -/
def FlagFormatter.Fits (msg : Record) (tm : Tm) : FlagFormatter → Prop
  | field flag padinfo =>
      flag.Readable msg ∧
        (padinfo.enabled → padinfo.truncate → flag.shortfall msg tm ≤ padinfo.width)
  | full _ _ => msg.source.empty = true ∨ msg.source.filename.isSome
  | _ => True

theorem Target.prefix_append (text : Bytes) (t : Target) : t.dest <+: (t.append text).dest :=
  List.prefix_append _ _

/-- The sign, the hours, a colon and the minutes. -/
theorem length_zField_text (totalMinutes : ℤ) :
    (zField totalMinutes).text.length = 2 + (pad2 ((totalMinutes.natAbs : ℤ) / 60)).length +
      (pad2 ((totalMinutes.natAbs : ℤ) % 60)).length := by
  have hsign : (if totalMinutes < 0 then ascii "-" else ascii "+").length = 1 := by
    split_ifs <;> rfl
  have hcolon : (ascii ":").length = 1 := rfl
  simp only [zField, List.length_append, hsign, hcolon]
  omega

theorem fieldSize_zField_le (totalMinutes : ℤ) :
    (zField totalMinutes).fieldSize ≤ (zField totalMinutes).text.length := by
  have hhours := two_le_length_pad2 ((totalMinutes.natAbs : ℤ) / 60)
  have hminutes := two_le_length_pad2 ((totalMinutes.natAbs : ℤ) % 60)
  have hsize : (zField totalMinutes).fieldSize = 6 := rfl
  rw [length_zField_text, hsize]
  omega

namespace FlagFormatter

theorem writeField_appends_iff (padinfo : PaddingInfo) (field : Field) (t : Target) :
    (∃ t', writeField padinfo (some field) t = .ok t' ∧ t.dest <+: t'.dest) ↔
      (padinfo.enabled → padinfo.truncate →
        field.fieldSize - field.text.length ≤ padinfo.width) := by
  rw [← Field.appends_iff padinfo field t.dest, writeField]
  constructor
  · rintro ⟨t', hwrite, hprefix⟩
    cases hfield : field.write padinfo t.dest with
    | error failure => simp [hfield, Except.map] at hwrite
    | ok dest =>
        obtain rfl : { t with dest } = t' := by simpa [hfield, Except.map] using hwrite
        exact ⟨dest, rfl, hprefix⟩
  · rintro ⟨dest, hfield, hprefix⟩
    exact ⟨{ t with dest }, by rw [hfield]; rfl, hprefix⟩

/-- A field that is as long as declared is appended. -/
theorem writeField_appends (padinfo : PaddingInfo) {field : Field}
    (h : field.fieldSize ≤ field.text.length) (t : Target) :
    ∃ t', writeField padinfo (some field) t = .ok t' ∧ t.dest <+: t'.dest := by
  apply (writeField_appends_iff padinfo field t).mpr
  intro _ _
  omega

/-- The step: a flag formatter appends exactly if it fits. -/
theorem write_appends_iff (pid : ℤ) (msg : Record) {tm : Tm} (htm : tm.InRange) (t : Target)
    (f : FlagFormatter) :
    (∃ t', f.write pid msg tm t = .ok t' ∧ t.dest <+: t'.dest) ↔ f.Fits msg tm := by
  cases f with
  | field flag padinfo =>
      rcases flag.field_cases pid msg tm with
        ⟨hnull, hfield⟩ | ⟨hread, hfield, hzero⟩ | ⟨hread, made, hfield⟩
      · refine iff_of_false ?_ fun h => hnull h.1
        rintro ⟨t', hwrite, -⟩
        rw [write, hfield] at hwrite
        cases hwrite
      · refine iff_of_true ⟨t, by rw [write, hfield]; rfl, List.prefix_rfl⟩ ⟨hread, ?_⟩
        intro _ _
        omega
      · -- the field that is made decides
        rw [Fits, and_iff_right hread, ← Flag.shortfall_spec htm hfield, write, hfield]
        exact writeField_appends_iff padinfo made t
  | z padinfo lastUpdate offsetMinutes =>
      exact iff_of_true (writeField_appends padinfo (fieldSize_zField_le _) t) trivial
  | elapsed units padinfo lastMessageTime =>
      exact iff_of_true (writeField_appends padinfo (length_decimal _).ge t) trivial
  | ch c => exact iff_of_true ⟨_, rfl, t.prefix_append [c]⟩ trivial
  | aggregate str => exact iff_of_true ⟨_, rfl, t.prefix_append str⟩ trivial
  | colorStart => exact iff_of_true ⟨_, rfl, List.prefix_rfl⟩ trivial
  | colorStop => exact iff_of_true ⟨_, rfl, List.prefix_rfl⟩ trivial
  | full cacheTimestamp cachedDatetime =>
      rw [Fits, ← fullSource_isOk_iff, write, fullFormat_eq]
      constructor
      · rintro ⟨t', hwrite, -⟩
        cases hsource : fullSource msg with
        | error failure => simp [hsource, Except.map] at hwrite
        | ok source => exact ⟨source, rfl⟩
      · rintro ⟨source, hsource⟩
        refine ⟨_, by rw [hsource]; rfl, ?_⟩
        simp only [List.append_assoc]
        exact List.prefix_append _ _

end FlagFormatter

namespace PatternFormatter

/-- Each formatter leaves the bytes that it finds. -/
def AppendsEach (pid : ℤ) (msg : Record) (tm : Tm) : List FlagFormatter → Target → Prop
  | [], _ => True
  | f :: rest, t =>
      ∃ f' t', f.format pid msg tm t = .ok (f', t') ∧ t.dest <+: t'.dest ∧
        AppendsEach pid msg tm rest t'

/-- `format` returns, with the text appended; and so does each flag formatter in
the loop. -/
structure AppendOnly (env : Environment) (msg : Record) (t : Target) (pf : PatternFormatter) :
    Prop where
  whole : ∃ pf' t', pf.format env msg t = .ok (pf', t') ∧ t.dest <+: t'.dest
  each : AppendsEach env.pid msg (pf.refresh env msg).cachedTm pf.formatters t

theorem appendsEach_cons (pid : ℤ) (msg : Record) (tm : Tm) (f : FlagFormatter)
    (rest : List FlagFormatter) (t : Target) :
    AppendsEach pid msg tm (f :: rest) t ↔
      ∃ t', f.write pid msg tm t = .ok t' ∧ t.dest <+: t'.dest ∧
        AppendsEach pid msg tm rest t' := by
  rw [AppendsEach, FlagFormatter.format_eq]
  cases f.write pid msg tm t <;> simp [Except.map]

/-- The run: each formatter appends exactly if all fit. -/
theorem appendsEach_iff (pid : ℤ) (msg : Record) {tm : Tm} (htm : tm.InRange)
    (formatters : List FlagFormatter) (t : Target) :
    AppendsEach pid msg tm formatters t ↔ ∀ f ∈ formatters, f.Fits msg tm := by
  induction formatters generalizing t with
  | nil => simp [AppendsEach]
  | cons f rest ih =>
      rw [appendsEach_cons, List.forall_mem_cons, ← FlagFormatter.write_appends_iff pid msg htm t f]
      constructor
      · rintro ⟨t', hwrite, hprefix, hrest⟩
        exact ⟨⟨t', hwrite, hprefix⟩, (ih t').mp hrest⟩
      · rintro ⟨⟨t', hwrite, hprefix⟩, hrest⟩
        exact ⟨t', hwrite, hprefix, (ih t').mpr hrest⟩

/-- When each formatter appends, the loop does. -/
theorem AppendsEach.formatAll {pid : ℤ} {msg : Record} {tm : Tm}
    {formatters : List FlagFormatter} {t : Target} (h : AppendsEach pid msg tm formatters t) :
    ∃ t', formatAll pid msg tm formatters t = .ok (formatters.map (·.next msg tm), t') ∧
      t.dest <+: t'.dest := by
  induction formatters generalizing t with
  | nil => exact ⟨t, rfl, List.prefix_rfl⟩
  | cons f rest ih =>
      obtain ⟨t', hwrite, hprefix, hrest⟩ := (appendsEach_cons pid msg tm f rest t).mp h
      obtain ⟨t'', hformat, hprefix'⟩ := ih hrest
      refine ⟨t'', ?_, hprefix.trans hprefix'⟩
      rw [formatAll_cons, hwrite, Except.bind, hformat]
      rfl

theorem new_inRange (now : ℤ) (pattern : Bytes) (timeType : PatternTimeType) (eol : Bytes) :
    (new now pattern timeType eol).cachedTm.InRange :=
  Tm.zero_inRange

/-- The cached time stays in its ranges. -/
theorem refresh_inRange {env : Environment} {msg : Record} {pf : PatternFormatter}
    (hcached : pf.cachedTm.InRange) (htime : (pf.getTime env msg).InRange) :
    (pf.refresh env msg).cachedTm.InRange := by
  unfold refresh
  dsimp only
  split_ifs
  · exact htime
  · exact hcached

/-- `format` of a pattern formatter is append-only exactly if every truncated flag
is at least as wide as it declares too much, and no null string is read. -/
theorem pattern_formatter_append_only_iff (env : Environment) (msg : Record)
    (pf : PatternFormatter) (t : Target) (htm : (pf.refresh env msg).cachedTm.InRange) :
    pf.AppendOnly env msg t ↔
      ∀ f ∈ pf.formatters, f.Fits msg (pf.refresh env msg).cachedTm := by
  rw [← appendsEach_iff env.pid msg htm pf.formatters t]
  constructor
  · exact AppendOnly.each
  · intro heach
    obtain ⟨t', hformat, hprefix⟩ := heach.formatAll
    have hwhole : t.dest <+: (t'.append pf.eol).dest := hprefix.trans (t'.prefix_append pf.eol)
    exact ⟨⟨_, _, by rw [format_eq, hformat]; rfl, hwhole⟩, heach⟩

def sampleEnvironment : Environment := ⟨1, Zone.constant 0⟩

def sampleMessage : Record :=
  LogMsg.new 1700000000000000000 7 {} (ascii "net") .info (ascii "up")

/-- `%D` declares two bytes too much, which a width of two makes up for. -/
theorem pattern_formatter_append_only_iff_sample :
    (new 0 (ascii "[%c] %5!l %2!D %v") .utc (ascii "\n")).AppendOnly sampleEnvironment
      sampleMessage ⟨ascii "> ", 0, 0⟩ := by
  refine (pattern_formatter_append_only_iff sampleEnvironment sampleMessage _ _ ?_).mpr ?_
  · exact refresh_inRange (new_inRange ..) (Zone.constant_inRange (by decide) (by decide))
  · have hformatters : (new 0 (ascii "[%c] %5!l %2!D %v") .utc (ascii "\n")).formatters =
        [.aggregate (ascii "["), .field .c {}, .aggregate (ascii "] "),
          .field .l ⟨5, .left, true, true, by decide⟩, .aggregate (ascii " "),
          .field .D ⟨2, .left, true, true, by decide⟩, .aggregate (ascii " "),
          .field .v {}] := rfl
    rw [hformatters]
    simp [FlagFormatter.Fits, Flag.Readable, Flag.shortfall]

/-- With a width of one `%D` takes away the byte before it, and at the start of an
empty buffer it terminates the program. -/
theorem pattern_formatter_eats_neighbour :
    ¬ (new 0 (ascii "%l %1!D") .utc (ascii "\n")).AppendOnly sampleEnvironment
      sampleMessage ⟨[], 0, 0⟩ ∧
    (new 0 (ascii "%1!D") .utc (ascii "\n")).format sampleEnvironment sampleMessage ⟨[], 0, 0⟩ =
      .error .terminated := by
  refine ⟨?_, rfl⟩
  rintro ⟨-, heach⟩
  have htm : ((new 0 (ascii "%l %1!D") .utc (ascii "\n")).refresh sampleEnvironment
      sampleMessage).cachedTm.InRange :=
    refresh_inRange (new_inRange ..) (Zone.constant_inRange (by decide) (by decide))
  have hformatters : (new 0 (ascii "%l %1!D") .utc (ascii "\n")).formatters =
      [.field .l {}, .aggregate (ascii " "), .field .D ⟨1, .left, true, true, by decide⟩] := rfl
  have hfits := (appendsEach_iff _ _ htm _ _).mp heach
    (.field .D ⟨1, .left, true, true, by decide⟩) (by rw [hformatters]; simp)
  exact absurd (hfits.2 rfl rfl) (by decide)

end PatternFormatter

end Structlog
