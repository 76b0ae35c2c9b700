import Structlog.PatternCaches

/-!
# Padded flags

A padder is told the size of a field before the field is written.  If the size is that of
the text, the padded flag writes `PaddingInfo.apply` of the text, and the padder stays within
its spaces and within what it has written itself (`padded_flag_exact`).

Flags with a text of any length count it.  Those of date and time give a number that
somebody has counted by hand, which is wrong for `%D` and `%x`, for `%c` on some days and for
`%E` at some times.  `Field.Pads` says when a wrong size does no harm, and
`padded_dates_iff` what that means for these flags, over a sequence of messages.

The way from one field to a formatter that has written some messages:

* `Field.write_eq_iff`: a field is written as its text padded exactly if `Pads` holds of it;
  `Field.guarded_eq` adds the checks of the padder's own array and of the buffer;
* `exists_field_exact`: which field a flag makes that counts its text, for
  `padded_flag_exact`;
* `timeFlag_size`, `length_zField`, `length_EFormatter`: how long the texts of date and time
  are, against what is declared; `exists_made` takes them together as `SizeKnown`;
* `compilePattern_flag`: the pattern of one flag with a specification is compiled to this
  flag, with that specification read back from its text (`handlePadspec_spec`);
* `PaddedBeside`: the invariant of two formatters side by side, the padded one and the one
  without padding, which have the same caches; `PaddedBeside.step` is one message.
-/

namespace Structlog

open Lib FmtHelper

/-! ## Padding a text -/

/-- The text with spaces up to the width, or cut to it. -/
def PaddingInfo.apply (padinfo : PaddingInfo) (text : Bytes) : Bytes :=
  if text.length < padinfo.width then
    let count := padinfo.width - text.length
    spaces (padinfo.side.before count) ++ text ++ spaces (count - padinfo.side.before count)
  else if padinfo.truncate then text.take padinfo.width
  else text

theorem PaddingInfo.length_apply (padinfo : PaddingInfo) (text : Bytes) :
    (padinfo.apply text).length =
      if padinfo.truncate then padinfo.width else max text.length padinfo.width := by
  have hbefore := padinfo.side.before_le (padinfo.width - text.length)
  unfold apply
  by_cases hshort : text.length < padinfo.width
  · rw [if_pos hshort]
    simp only [List.length_append, length_spaces]
    split_ifs <;> omega
  · rw [if_neg hshort]
    split_ifs
    · rw [List.length_take]
      omega
    · omega

namespace Field

/-- The declared size is that of the text, or neither matters. -/
def Pads (padinfo : PaddingInfo) (field : Field) : Prop :=
  field.fieldSize = field.text.length ∨
    padinfo.truncate = false ∧ padinfo.width ≤ field.fieldSize ∧
      padinfo.width ≤ field.text.length

/-- The buffer grows by the length of the padded text exactly if the size is right or does
not matter. -/
theorem growth_eq_iff {padinfo : PaddingInfo} (henabled : padinfo.enabled = true)
    (field : Field) :
    field.growth padinfo = (padinfo.apply field.text).length ↔ field.Pads padinfo := by
  rw [PaddingInfo.length_apply, growth, Pads]
  cases padinfo.truncate with
  | true =>
      simp only [henabled, or_true, and_self, if_true, Bool.true_eq_false, false_and, or_false]
      omega
  | false =>
      by_cases hlt : field.fieldSize < padinfo.width
      · simp only [henabled, hlt, true_or, and_self, if_true, Bool.false_eq_true, if_false]
        omega
      · simp only [hlt, Bool.false_eq_true, or_self, and_false, if_false, true_and]
        omega

/-- A field whose size is right, or does not matter, writes its text as it is to be padded. -/
theorem after_of_pads {padinfo : PaddingInfo} {field : Field}
    (henabled : padinfo.enabled = true) (h : field.Pads padinfo) (dest : Bytes) :
    field.after padinfo dest = dest ++ padinfo.apply field.text := by
  unfold after PaddingInfo.apply
  rcases h with hsize | ⟨htruncate, hdeclared, hwritten⟩
  · rw [henabled, hsize]
    by_cases hshort : field.text.length < padinfo.width
    · simp [hshort]
    · cases padinfo.truncate with
      | false => simp [hshort]
      | true =>
          -- what is cut off is cut off the text
          have hkept : (dest ++ field.text).length - (field.text.length - padinfo.width) =
              dest.length + padinfo.width := by
            rw [List.length_append]
            omega
          simp [hshort, -List.length_append, hkept, List.take_length_add_append]
  · simp [henabled, htruncate, Nat.not_lt.mpr hdeclared, Nat.not_lt.mpr hwritten]

theorem write_eq_iff {padinfo : PaddingInfo} (henabled : padinfo.enabled = true) (field : Field)
    (dest : Bytes) :
    field.write padinfo dest = .ok (dest ++ padinfo.apply field.text) ↔ field.Pads padinfo := by
  rw [← growth_eq_iff henabled]
  constructor
  · intro hwrite
    by_cases hneg : (dest.length : ℤ) + field.growth padinfo < 0
    · rw [write_terminated hneg] at hwrite
      cases hwrite
    · rw [write_ok (not_lt.mp hneg)] at hwrite
      have hlength := length_after (not_lt.mp hneg)
      rw [Except.ok.inj hwrite, List.length_append] at hlength
      push_cast at hlength
      omega
  · intro hgrowth
    rw [write_ok (by omega), after_of_pads henabled ((growth_eq_iff henabled field).mp hgrowth)]

end Field

/-! ## Within the spaces and within the buffer -/

namespace ScopedPadder

/-- `pad_it`, if there are so many spaces. -/
def padIt (count : ℤ) (dest : Bytes) : Option Bytes :=
  if 0 ≤ count ∧ count ≤ maxWidth then some (dest ++ spaces count.toNat) else none

/-- `resize`, if it cuts nothing of the first `initial` bytes and adds none. -/
def resize (initial : ℕ) (newSize : ℤ) (dest : Bytes) : Option Bytes :=
  if initial ≤ newSize ∧ newSize ≤ dest.length then some (dest.take newSize.toNat) else none

/-- The constructor and the destructor around a text, with `pad_it` and `resize` checked. -/
def guarded (padinfo : PaddingInfo) (field : Field) (dest : Bytes) : Option Bytes := do
  let remainingPad : ℤ := (padinfo.width : ℤ) - field.fieldSize
  let (padded, remainingPad) ←
    if remainingPad ≤ 0 then some (dest, remainingPad)
    else
      match padinfo.side with
      | .left => (padIt remainingPad dest).map fun padded => (padded, 0)
      | .center =>
          let halfPad := remainingPad / 2
          (padIt halfPad dest).map fun padded => (padded, halfPad + remainingPad % 2)
      | .right => some (dest, remainingPad)
  let written := padded ++ field.text
  if 0 ≤ remainingPad then padIt remainingPad written
  else if padinfo.truncate then resize dest.length ((written.length : ℤ) + remainingPad) written
  else some written

theorem padIt_eq {count : ℤ} (hlow : 0 ≤ count) (hhigh : count ≤ maxWidth) (dest : Bytes) :
    padIt count dest = some (dest ++ spaces count.toNat) :=
  if_pos ⟨hlow, hhigh⟩

/-- The checks are met if the size is that of the text. -/
theorem guarded_eq {padinfo : PaddingInfo} (henabled : padinfo.enabled = true) {field : Field}
    (hsize : field.fieldSize = field.text.length) (dest : Bytes) :
    (guarded padinfo field dest).map .ok = some (field.write padinfo dest) := by
  have hwidth : (padinfo.width : ℤ) ≤ maxWidth := Int.ofNat_le.mpr padinfo.width_le
  unfold guarded Field.write construct destruct
  rw [if_pos henabled, hsize]
  by_cases hlong : (padinfo.width : ℤ) - field.text.length ≤ 0
  · simp only [if_pos hlong, Option.bind_eq_bind, Option.bind_some]
    by_cases hzero : 0 ≤ (padinfo.width : ℤ) - field.text.length
    · simp only [if_pos hzero, padIt_eq hzero (by omega)]
      rfl
    · simp only [if_neg hzero]
      cases padinfo.truncate with
      | false => rfl
      | true =>
          -- the new size is between that of the buffer and that of the buffer with the text
          have hkept : (dest.length : ℤ) ≤
              ((dest ++ field.text).length : ℤ) + (padinfo.width - field.text.length) ∧
            ((dest ++ field.text).length : ℤ) + (padinfo.width - field.text.length) ≤
              (dest ++ field.text).length := by
            rw [List.length_append]
            push_cast
            omega
          have hpos : ¬ ((dest ++ field.text).length : ℤ) +
            (padinfo.width - field.text.length) < 0 := by omega
          simp only [if_true, resize, if_pos hkept, if_neg hpos]
          rfl
  · simp only [if_neg hlong, Option.bind_eq_bind]
    cases padinfo.side with
    | left =>
        dsimp only
        rw [padIt_eq (by omega) (by omega)]
        rfl
    | right =>
        dsimp only [Option.bind_some]
        rw [if_pos (by omega), if_pos (by omega), padIt_eq (by omega) (by omega)]
        rfl
    | center =>
        dsimp only
        rw [padIt_eq (by omega) (by omega)]
        dsimp only [Option.map_some, Option.bind_some]
        rw [if_pos (by omega), if_pos (by omega), padIt_eq (by omega) (by omega)]
        rfl

end ScopedPadder

/-! ## Flags that count their text -/

/-- The flags whose text has any length. -/
def textFlags : List Char := ['n', 'l', 'L', 'v', 'a', 'A', 'b', 'B', 't', 'P']

/-- The flags for the source location. -/
def locationFlags : List Char := ['s', 'g', '#', '!', '@']

/-- A source location with everything that the flags read; the line is a positive `int`. -/
structure SourceLoc.Complete (loc : SourceLoc) : Prop where
  line : 0 < loc.line ∧ loc.line < 2 ^ 31
  filename : loc.filename.isSome
  funcname : loc.funcname.isSome

theorem sourceField_of_complete {loc : SourceLoc} (h : loc.Complete) (string : Bytes)
    (make : Bytes → Field) : sourceField loc (some string) make = .ok (some (make string)) := by
  have hline : loc.line ≠ 0 := h.line.1.ne'
  simp [sourceField, SourceLoc.empty, hline]

theorem countDigitsInt_eq {line : ℤ} (h : 0 < line ∧ line < 2 ^ 31) :
    countDigitsInt line = (decimalInt line).length := by
  have hmod : (line % 2 ^ 32).toNat = line.natAbs := by omega
  rw [countDigitsInt, length_decimalInt, if_neg (by omega), hmod, Nat.add_zero]

/-- Each of these flags declares the size of its text. -/
theorem exists_field_exact (now pid : ℤ) {msg : Record} (tm : Tm) {flag : Char}
    (hflag : flag ∈ textFlags ∨ flag ∈ locationFlags ∧ msg.source.Complete) :
    ∃ kind made, (∀ padinfo, handleFlag now (charByte flag) padinfo = [.field kind padinfo]) ∧
      kind.field pid msg tm = .ok (some made) ∧ made.fieldSize = made.text.length := by
  rcases hflag with hflag | ⟨hflag, hsource⟩
  · simp only [textFlags, List.mem_cons, List.not_mem_nil, or_false] at hflag
    rcases hflag with rfl | rfl | rfl | rfl | rfl | rfl | rfl | rfl | rfl | rfl
    case inr.inr.inr.inr.inr.inr.inr.inr.inl =>
      exact ⟨.t, _, fun _ => rfl, rfl, (length_decimal _).symm⟩
    case inr.inr.inr.inr.inr.inr.inr.inr.inr =>
      exact ⟨.P, _, fun _ => rfl, rfl, (length_decimal _).symm⟩
    all_goals
      exact ⟨_, _, fun _ => rfl, rfl, rfl⟩
  · obtain ⟨filename, hfilename⟩ := Option.isSome_iff_exists.mp hsource.filename
    obtain ⟨funcname, hfuncname⟩ := Option.isSome_iff_exists.mp hsource.funcname
    have hline := countDigitsInt_eq hsource.line
    have hmade := sourceField_of_complete hsource
    simp only [locationFlags, List.mem_cons, List.not_mem_nil, or_false] at hflag
    rcases hflag with rfl | rfl | rfl | rfl | rfl
    · refine ⟨.shortFilename, .exact (basename filename), fun _ => rfl, ?_, rfl⟩
      rw [Flag.field, Flag.fieldBy, shortFilenameFormatter, hfilename, hmade]
    · refine ⟨.sourceFilename, .exact filename, fun _ => rfl, ?_, rfl⟩
      rw [Flag.field, Flag.fieldBy, sourceFilenameFormatter, hfilename, hmade]
    · refine ⟨.sourceLinenum, _, fun _ => rfl, hmade _ _, hline⟩
    · refine ⟨.sourceFuncname, .exact funcname, fun _ => rfl, ?_, rfl⟩
      rw [Flag.field, Flag.fieldBy, sourceFuncnameFormatter, hfuncname, hmade]
    · refine ⟨.sourceLocation, ⟨filename.length + countDigitsInt msg.source.line + 1,
        filename ++ ascii ":" ++ decimalInt msg.source.line⟩, fun _ => rfl, ?_, ?_⟩
      · rw [Flag.field, Flag.fieldBy, sourceLocationFormatter, hfilename, hmade]
      · have hcolon : (ascii ":").length = 1 := rfl
        simp only [List.length_append, hcolon, hline]
        omega

namespace FlagFormatter

/-- The formatter with another padding. -/
def withPadding (padinfo : PaddingInfo) : FlagFormatter → FlagFormatter
  | field flag _ => field flag padinfo
  | z _ lastUpdate offsetMinutes => z padinfo lastUpdate offsetMinutes
  | elapsed units _ lastMessageTime => elapsed units padinfo lastMessageTime
  | other => other

/-- The field that a formatter with padding makes. -/
def made (pid : ℤ) (msg : Record) (tm : Tm) (f : FlagFormatter) : Option Field :=
  (f.padded pid msg tm).map Prod.snd

variable {pid : ℤ} {msg : Record} {tm : Tm}

theorem write_of_made {f : FlagFormatter} {field : Field} (hmade : f.made pid msg tm = some field)
    (padinfo : PaddingInfo) (t : Target) :
    (f.withPadding padinfo).write pid msg tm t = writeField padinfo (some field) t := by
  cases f with
  | field flag padinfo' =>
      rw [withPadding, write]
      unfold made padded at hmade
      cases hfield : flag.field pid msg tm with
      | error failure => simp [hfield, Except.toOption] at hmade
      | ok result =>
          obtain rfl : result = some field := by simpa [hfield, Except.toOption] using hmade
          rfl
  | z padinfo' lastUpdate offsetMinutes =>
      obtain rfl := Option.some.inj hmade
      rfl
  | elapsed units padinfo' lastMessageTime =>
      obtain rfl := Option.some.inj hmade
      rfl
  | ch | aggregate | colorStart | colorStop | full => cases hmade

theorem next_withPadding (padinfo : PaddingInfo) (msg : Record) (tm : Tm) (f : FlagFormatter) :
    (f.withPadding padinfo).next msg tm = (f.next msg tm).withPadding padinfo := by
  cases f <;> rfl

/-- Without padding the text is appended. -/
theorem writeField_none (field : Field) (t : Target) :
    writeField .none (some field) t = .ok (t.append field.text) :=
  rfl

theorem writeField_eq_iff {padinfo : PaddingInfo} (henabled : padinfo.enabled = true)
    (field : Field) (t : Target) :
    writeField padinfo (some field) t = .ok (t.append (padinfo.apply field.text)) ↔
      field.Pads padinfo := by
  rw [← Field.write_eq_iff henabled field t.dest, writeField, Target.append]
  cases field.write padinfo t.dest <;> simp [Except.map]

end FlagFormatter

namespace PatternFormatter

theorem formatAll_singleton (pid : ℤ) (msg : Record) (tm : Tm) (f : FlagFormatter) (t : Target) :
    formatAll pid msg tm [f] t = (f.write pid msg tm t).map fun t' => ([f.next msg tm], t') := by
  rw [formatAll_cons]
  cases f.write pid msg tm t <;> rfl

/-- A flag appends the text of a field, and with padding the text as it is to be padded; the
checks in the padder are met. -/
structure PaddedExactly (now pid : ℤ) (msg : Record) (tm : Tm) (flag : Char)
    (padinfo : PaddingInfo) (kind : Flag) (made : Field) : Prop where
  formatter : handleFlag now (charByte flag) padinfo = [.field kind padinfo]
  field : kind.field pid msg tm = .ok (some made)
  plain : ∀ t, (formatAll pid msg tm (handleFlag now (charByte flag) .none) t).map Prod.snd =
    .ok (t.append made.text)
  padded : ∀ t, (formatAll pid msg tm (handleFlag now (charByte flag) padinfo) t).map Prod.snd =
    .ok (t.append (padinfo.apply made.text))
  guarded : ∀ dest, ScopedPadder.guarded padinfo made dest =
    some (dest ++ padinfo.apply made.text)

/-- A flag that counts its text is padded exactly. -/
theorem padded_flag_exact (now pid : ℤ) (msg : Record) (tm : Tm) {flag : Char}
    (hflag : flag ∈ textFlags ∨ flag ∈ locationFlags ∧ msg.source.Complete)
    (padinfo : PaddingInfo) (henabled : padinfo.enabled = true) :
    ∃ kind made, PaddedExactly now pid msg tm flag padinfo kind made := by
  obtain ⟨kind, made, hformatters, hmade, hsize⟩ := exists_field_exact now pid tm hflag
  refine ⟨kind, made, hformatters padinfo, hmade, fun t => ?_, fun t => ?_, fun dest => ?_⟩
  · rw [hformatters, formatAll_singleton, FlagFormatter.write, hmade]
    rfl
  · rw [hformatters, formatAll_singleton, FlagFormatter.write, hmade, Except.bind,
      (FlagFormatter.writeField_eq_iff henabled made t).mpr (.inl hsize)]
    rfl
  · have hguarded := ScopedPadder.guarded_eq henabled hsize dest
    rw [(Field.write_eq_iff henabled made dest).mpr (.inl hsize)] at hguarded
    obtain ⟨dest', hdest, hok⟩ := Option.map_eq_some_iff.mp hguarded
    rw [hdest, Except.ok.inj hok]

/-- The file name and the line, cut to five bytes. -/
theorem padded_flag_exact_location :
    ∃ kind made, PaddedExactly 0 1
      { sampleMessage with source := ⟨some (ascii "net.c"), 12, some []⟩ } .zero '@'
      ⟨5, .left, true, true, by decide⟩ kind made :=
  padded_flag_exact 0 1 _ .zero (.inr ⟨by decide, by decide, rfl, rfl⟩) _ rfl

end PatternFormatter

/-! ## Flags of date and time -/

/-- The flags of date and time with a declared size. -/
def timeFlags : List Char :=
  ['c', 'C', 'D', 'x', 'Y', 'm', 'd', 'H', 'I', 'M', 'S', 'e', 'f', 'F', 'E', 'p', 'r', 'R', 'T',
    'X', 'z']

/-- A broken-down time in its ranges, with less than 100 hours to UTC. -/
structure Tm.Printable (tm : Tm) : Prop where
  inRange : tm.InRange
  gmtoff : tm.gmtoff.natAbs < 360000

/-- The flag whose field a flag of date and time makes; `z` has a state of its own. -/
def timeFlag : Char → Option Flag
  | 'c' => some .c
  | 'C' => some .C
  | 'D' | 'x' => some .D
  | 'Y' => some .Y
  | 'm' => some .m
  | 'd' => some .d
  | 'H' => some .H
  | 'I' => some .I
  | 'M' => some .M
  | 'S' => some .S
  | 'e' => some .e
  | 'f' => some .f
  | 'F' => some .F
  | 'E' => some .E
  | 'p' => some .p
  | 'r' => some .r
  | 'R' => some .R
  | 'T' | 'X' => some .T
  | _ => none

/-- The declared size is that of the text, or, where nothing is to be cut, both are enough for
the width. -/
def SizeKnown (flag : Char) (padinfo : PaddingInfo) (msg : Record) (tm : Tm) : Prop :=
  match timeFlag flag with
  | some .c => (tm.mday < 10 ↔ tm.mon = 8) ∨
      padinfo.truncate = false ∧ padinfo.width ≤ if tm.mday < 10 then 23 else 24
  | some .D => padinfo.truncate = false ∧ padinfo.width ≤ 8
  | some .E => 10 ^ 9 ≤ toTimeT msg.time ∧ toTimeT msg.time < 10 ^ 10 ∨
      padinfo.truncate = false ∧ padinfo.width ≤ min 10 (decimalLength (toTimeT msg.time).natAbs)
  | _ => True

/-- A formatter for the flag, without padding. -/
def TimeFormatter (flag : Char) (f : FlagFormatter) : Prop :=
  match timeFlag flag with
  | some kind => f = .field kind .none
  | none => ∃ lastUpdate offsetMinutes, f = .z .none lastUpdate offsetMinutes ∧
      offsetMinutes.natAbs < 6000

theorem exists_timeFormatter {flag : Char} (hflag : flag ∈ timeFlags) (now : ℤ) :
    ∃ f, TimeFormatter flag f ∧
      ∀ padinfo, handleFlag now (charByte flag) padinfo = [f.withPadding padinfo] := by
  simp only [timeFlags, List.mem_cons, List.not_mem_nil, or_false] at hflag
  rcases hflag with rfl | rfl | rfl | rfl | rfl | rfl | rfl | rfl | rfl | rfl | rfl | rfl | rfl |
    rfl | rfl | rfl | rfl | rfl | rfl | rfl | rfl
  case inr.inr.inr.inr.inr.inr.inr.inr.inr.inr.inr.inr.inr.inr.inr.inr.inr.inr.inr.inr =>
    exact ⟨.z .none 0 0, ⟨0, 0, rfl, by decide⟩, fun _ => rfl⟩
  all_goals
    exact ⟨_, rfl, fun _ => rfl⟩

section Sizes

variable {msg : Record} {tm : Tm}

/-- The fraction of a second is the whole count of the duration, without the whole seconds. -/
theorem timeFraction_eq {time : ℤ} (htime : 0 ≤ time) {duration count : ℤ}
    (hduration : 0 < duration) (hcount : nanos = duration * count) :
    timeFraction duration time = time / duration % count := by
  have hwhole : nanos / duration = count := by
    rw [hcount, Int.mul_ediv_cancel_left _ hduration.ne']
  have hseconds : time / nanos = time / duration / count := by
    rw [hcount, Int.ediv_ediv_of_nonneg hduration.le]
  rw [timeFraction, Int.tdiv_eq_ediv_of_nonneg htime, Int.tdiv_eq_ediv_of_nonneg htime,
    Int.tdiv_eq_ediv_of_nonneg (by decide), hwhole, hseconds, Int.emod_def, mul_comm count]

/-- The fraction of a second is less than a second. -/
theorem timeFraction_bounds {time : ℤ} (htime : 0 ≤ time) (duration count : ℤ)
    (hduration : 0 < duration) (hcount : nanos = duration * count) :
    0 ≤ timeFraction duration time ∧ timeFraction duration time < count := by
  have hpos : 0 < count := by
    have hnanos : 0 < duration * count := by
      rw [← hcount]
      decide
    exact pos_of_mul_pos_right hnanos hduration.le
  rw [timeFraction_eq htime hduration hcount]
  exact ⟨Int.emod_nonneg _ hpos.ne', Int.emod_lt_of_pos _ hpos⟩

theorem length_padUint {n : ℕ} (width : ℕ) (hwidth : 0 < width) (h : n < 10 ^ width) :
    (padUint n width).length = width := by
  have hdigits := (decimalLength_le_iff hwidth).mpr h
  rw [padUint, length_zeroPadded]
  omega

theorem length_pad3 {n : ℕ} (h : n < 1000) : (pad3 n).length = 3 := by
  rw [pad3, if_pos h]
  rfl

/-- The flags of date and time whose size is known. -/
theorem timeFlag_size (pid : ℤ) {flag : Char} {kind : Flag} (hkind : timeFlag flag = some kind)
    (hc : kind ≠ .c) (hD : kind ≠ .D) (hE : kind ≠ .E) (htm : tm.InRange) (htime : 0 ≤ msg.time)
    {field : Field} (hfield : kind.field pid msg tm = .ok (some field)) :
    field.fieldSize = field.text.length := by
  have hcolon : (ascii ":").length = 1 := rfl
  have hspace : (ascii " ").length = 1 := rfl
  have hmon := htm.mon
  have hmday := htm.mday
  have hhour := length_pad2 htm.hour.1 (by have := htm.hour.2; omega)
  have hmin := length_pad2 htm.min.1 (by have := htm.min.2; omega)
  have hsec := length_pad2 htm.sec.1 (by have := htm.sec.2; omega)
  have hhour12 : (pad2 (to12h tm)).length = 2 := by
    have := htm.hour
    unfold to12h
    split_ifs <;> exact length_pad2 (by omega) (by omega)
  -- Each part of the text has two or three digits in the ranges of `tm` and of the fractions.
  cases kind
  case c | D | E => contradiction
  case n | l | L | t | v | a | A | b | B | P | sourceLocation | shortFilename | sourceFilename |
      sourceLinenum | sourceFuncname =>
    unfold timeFlag at hkind
    split at hkind <;> cases hkind
  all_goals
    obtain rfl := Option.some.inj (Except.ok.inj hfield)
  case C =>
    have hyear := htm.year
    have hcentury : tm.year.tmod 100 = tm.year % 100 := Int.tmod_eq_emod_of_nonneg hyear.1
    refine (length_pad2 ?_ ?_).symm <;> omega
  case Y => exact (length_year htm).symm
  case m => exact (length_pad2 (by omega) (by omega)).symm
  case d => exact (length_pad2 (by omega) (by omega)).symm
  case H => exact hhour.symm
  case I => exact hhour12.symm
  case M => exact hmin.symm
  case S => exact hsec.symm
  case e =>
    have hmillis := timeFraction_bounds htime 1000000 1000 (by decide) rfl
    exact (length_pad3 (by omega)).symm
  case f =>
    have hmicros := timeFraction_bounds htime 1000 1000000 (by decide) rfl
    exact (length_padUint 6 (by decide) (by omega)).symm
  case F =>
    have hnanos := timeFraction_bounds htime 1 1000000000 (by decide) rfl
    exact (length_padUint 9 (by decide) (by omega)).symm
  case p => exact (length_ampm tm).symm
  case r =>
    simp only [rFormatter, List.length_append, hcolon, hspace, length_ampm, hhour12, hmin, hsec]
  case R => simp only [RFormatter, List.length_append, hcolon, hhour, hmin]
  case T => simp only [TFormatter, List.length_append, hcolon, hhour, hmin, hsec]

/-- With two digits of hours and two of minutes. -/
theorem length_zField {totalMinutes : ℤ} (h : totalMinutes.natAbs < 6000) :
    (zField totalMinutes).text.length = 6 := by
  have hhours := length_pad2 (n := (totalMinutes.natAbs : ℤ) / 60) (by omega) (by omega)
  have hminutes := length_pad2 (n := (totalMinutes.natAbs : ℤ) % 60) (by omega) (by omega)
  rw [length_zField_text, hhours, hminutes]

theorem natAbs_utcMinutesOffset (h : tm.Printable) : (utcMinutesOffset tm).natAbs < 6000 := by
  have hgmtoff := h.gmtoff
  rw [utcMinutesOffset, Int.natAbs_tdiv]
  exact Nat.div_lt_of_lt_mul hgmtoff

/-- The offset that is cached, or taken from the broken-down time. -/
theorem natAbs_currentOffset (h : tm.Printable) (lastUpdate : ℤ) {offsetMinutes : ℤ}
    (hoffset : offsetMinutes.natAbs < 6000) :
    (FlagFormatter.currentOffset msg tm lastUpdate offsetMinutes).natAbs < 6000 := by
  unfold FlagFormatter.currentOffset
  split_ifs
  · exact natAbs_utcMinutesOffset h
  · exact hoffset

/-- `%E` writes ten digits from 2001 to 2286. -/
theorem length_EFormatter (htime : 0 ≤ msg.time) :
    (EFormatter msg).text.length = decimalLength (toTimeT msg.time).natAbs ∧
      (decimalLength (toTimeT msg.time).natAbs = 10 ↔
        10 ^ 9 ≤ toTimeT msg.time ∧ toTimeT msg.time < 10 ^ 10) := by
  have hseconds : 0 ≤ toTimeT msg.time := Int.tdiv_nonneg htime (by decide)
  have hten := decimalLength_le_iff (n := (toTimeT msg.time).natAbs) (k := 10) (by decide)
  have hnine := decimalLength_le_iff (n := (toTimeT msg.time).natAbs) (k := 9) (by decide)
  have hlength := length_decimalInt (toTimeT msg.time)
  rw [if_neg (by omega), Nat.add_zero] at hlength
  exact ⟨hlength, by omega⟩

/-- What is declared for the flag does no harm exactly if the size is known. -/
theorem exists_made (pid : ℤ) {flag : Char} {f : FlagFormatter} (hf : TimeFormatter flag f)
    (htm : tm.Printable) (htime : 0 ≤ msg.time) :
    ∃ field, f.made pid msg tm = some field ∧
      ∀ padinfo, field.Pads padinfo ↔ SizeKnown flag padinfo msg tm := by
  unfold TimeFormatter at hf
  unfold SizeKnown
  cases hkind : timeFlag flag with
  | none =>
      rw [hkind] at hf
      obtain ⟨lastUpdate, offsetMinutes, rfl, hoffset⟩ := hf
      refine ⟨_, rfl, fun padinfo => iff_of_true (.inl ?_) trivial⟩
      exact (length_zField (natAbs_currentOffset htm lastUpdate hoffset)).symm
  | some kind =>
      rw [hkind] at hf
      obtain rfl : f = .field kind .none := hf
      cases kind
      case c =>
        refine ⟨cFormatter tm, rfl, fun padinfo => ?_⟩
        have hsize : (cFormatter tm).fieldSize = 24 := rfl
        rw [Field.Pads, length_text_cFormatter htm.inRange, hsize]
        by_cases hday : tm.mday < 10 <;> by_cases hmonth : tm.mon = 8 <;>
          cases padinfo.truncate <;> simp [hday, hmonth]
        all_goals omega
      case D =>
        refine ⟨DFormatter tm, rfl, fun padinfo => ?_⟩
        have hsize : (DFormatter tm).fieldSize = 10 := rfl
        rw [Field.Pads, length_DFormatter htm.inRange, hsize]
        cases padinfo.truncate <;> simp
        omega
      case E =>
        refine ⟨EFormatter msg, rfl, fun padinfo => ?_⟩
        have hsize : (EFormatter msg).fieldSize = 10 := rfl
        obtain ⟨hlength, hdigits⟩ := length_EFormatter htime
        rw [Field.Pads, hlength, hsize, eq_comm, hdigits, le_min_iff]
      case n | l | L | t | v | a | A | b | B | P | sourceLocation | shortFilename |
          sourceFilename | sourceLinenum | sourceFuncname =>
        unfold timeFlag at hkind
        split at hkind <;> cases hkind
      all_goals
        refine ⟨_, rfl, fun padinfo => iff_of_true (.inl ?_) trivial⟩
        exact timeFlag_size pid hkind (by decide) (by decide) (by decide) htm.inRange
          htime rfl

theorem TimeFormatter.next {flag : Char} {f : FlagFormatter} (hf : TimeFormatter flag f)
    (htm : tm.Printable) : TimeFormatter flag (f.next msg tm) := by
  unfold TimeFormatter at *
  cases hkind : timeFlag flag with
  | some kind =>
      rw [hkind] at hf
      obtain rfl : f = .field kind .none := hf
      rfl
  | none =>
      rw [hkind] at hf
      obtain ⟨lastUpdate, offsetMinutes, rfl, hoffset⟩ := hf
      exact ⟨_, _, rfl, natAbs_currentOffset htm lastUpdate hoffset⟩

end Sizes

/-! ## The pattern of a padded flag -/

/-- The character before the width. -/
def PadSide.mark : PadSide → Bytes
  | left => []
  | right => ascii "-"
  | center => ascii "="

/-- A pad spec, as it is written in a pattern. -/
def PaddingInfo.spec (padinfo : PaddingInfo) : Bytes :=
  padinfo.side.mark ++ decimal padinfo.width ++ if padinfo.truncate then ascii "!" else []

theorem decimal_eq_digits : ∀ width < maxWidth + 1, decimal width =
    if width < 10 then [digit width] else [digit (width / 10), digit (width % 10)] := by
  decide

theorem digit_spec : ∀ n < 10, isDigit (digit n) = true ∧ (digit n).toNat - 48 = n ∧
    digit n ≠ charByte '-' ∧ digit n ≠ charByte '=' := by
  decide

/-- The width ends before a character that is no digit. -/
theorem handleWidth_of_head {rest : Bytes} (h : ∀ c ∈ rest.head?, ¬ isDigit c) (width : ℕ) :
    handleWidth width rest = (width, rest) := by
  cases rest with
  | nil => rfl
  | cons c rest =>
      rw [handleWidth, if_neg (h c rfl)]

/-- A width has one digit or two, and is read back. -/
theorem exists_decimal_width {width : ℕ} (h : width ≤ maxWidth) :
    ∃ first others, decimal width = first :: others ∧ isDigit first = true ∧
      first ≠ charByte '-' ∧ first ≠ charByte '=' ∧
      ∀ rest : Bytes, (∀ c ∈ rest.head?, ¬ isDigit c) →
        handleWidth (first.toNat - 48) (others ++ rest) = (width, rest) := by
  rw [decimal_eq_digits width (Nat.lt_succ_of_le h)]
  split_ifs with hone
  · obtain ⟨hdigit, hvalue, hminus, hequals⟩ := digit_spec width hone
    refine ⟨_, [], rfl, hdigit, hminus, hequals, fun rest hrest => ?_⟩
    rw [hvalue, List.nil_append, handleWidth_of_head hrest]
  · have hmax : maxWidth = 64 := rfl
    obtain ⟨hdigit, hvalue, hminus, hequals⟩ := digit_spec (width / 10) (by omega)
    obtain ⟨hdigit', hvalue', -, -⟩ := digit_spec (width % 10) (by omega)
    have hsize : sizeT = 2 ^ 64 := rfl
    have hwidth : (width / 10 * 10 + width % 10) % sizeT = width := by
      rw [hsize]
      omega
    refine ⟨_, [_], rfl, hdigit, hminus, hequals, fun rest hrest => ?_⟩
    rw [hvalue, List.singleton_append, handleWidth, if_pos hdigit', hvalue', hwidth,
      handleWidth_of_head hrest]

/-- A pad spec is read back, if what follows is no part of it. -/
theorem handlePadspec_spec (padinfo : PaddingInfo) (henabled : padinfo.enabled = true)
    (rest : Bytes) (hrest : padinfo.truncate = true ∨
      ∀ c ∈ rest.head?, ¬ isDigit c ∧ c ≠ charByte '!') :
    handlePadspec (padinfo.spec ++ rest) = (padinfo, rest) := by
  obtain ⟨first, others, hdecimal, hdigit, hminus, hequals, hread⟩ :=
    exists_decimal_width padinfo.width_le
  have hspec : padinfo.spec ++ rest = padinfo.side.mark ++ first :: (others ++
      ((if padinfo.truncate then ascii "!" else []) ++ rest)) := by
    rw [PaddingInfo.spec, hdecimal]
    simp only [List.append_assoc, List.cons_append]
  have hwidth : min padinfo.width maxWidth = padinfo.width := Nat.min_eq_left padinfo.width_le
  -- The end of the pad spec, behind the width.
  have htruncate : handleTruncate padinfo.side padinfo.width
      ((if padinfo.truncate then ascii "!" else []) ++ rest) = (padinfo, rest) := by
    obtain ⟨width, side, truncate, enabled, hle⟩ := padinfo
    obtain rfl : enabled = true := henabled
    have hbang : ascii "!" ++ rest = charByte '!' :: rest := rfl
    cases truncate with
    | true => simp [handleTruncate, hbang, Nat.min_eq_left hle]
    | false =>
        have hrest := hrest.resolve_left Bool.false_ne_true
        cases rest with
        | nil => simp [handleTruncate, Nat.min_eq_left hle]
        | cons c rest => simp [handleTruncate, Nat.min_eq_left hle, (hrest c rfl).2]
  -- The width ends where it should.
  have hhead : ∀ c ∈ ((if padinfo.truncate then ascii "!" else []) ++ rest).head?,
      ¬ isDigit c := by
    intro c hc
    cases htruncate : padinfo.truncate with
    | true =>
        rw [htruncate] at hc
        obtain rfl : charByte '!' = c := Option.some.inj hc
        decide
    | false =>
        rw [htruncate] at hc
        exact (hrest.resolve_left (by rw [htruncate]; decide) c hc).1
  rw [hspec]
  cases hside : padinfo.side with
  | left =>
      rw [PadSide.mark, List.nil_append, handlePadspec]
      dsimp only
      rw [if_neg hminus, if_neg hequals, if_pos hdigit, hread _ hhead, ← hside]
      exact htruncate
  | right =>
      change handlePadspec (charByte '-' :: first :: _) = _
      rw [handlePadspec]
      dsimp only
      rw [if_pos rfl, if_pos hdigit, hread _ hhead, ← hside]
      exact htruncate
  | center =>
      change handlePadspec (charByte '=' :: first :: _) = _
      rw [handlePadspec]
      dsimp only
      rw [if_neg (by decide), if_pos rfl, if_pos hdigit, hread _ hhead, ← hside]
      exact htruncate

/-- `%X`. -/
def plainPattern (flag : Char) : Bytes := [charByte '%', charByte flag]

/-- `%<spec>X`. -/
def paddedPattern (padinfo : PaddingInfo) (flag : Char) : Bytes :=
  charByte '%' :: (padinfo.spec ++ [charByte flag])

theorem compilePattern_flag (now : ℤ) {rest : Bytes} {padinfo : PaddingInfo} {flag : UInt8}
    (h : handlePadspec rest = (padinfo, [flag])) :
    compilePattern now (charByte '%' :: rest) = handleFlag now flag padinfo := by
  have hend (rounds : ℕ) : compileLoop now rounds none [] = [] := by cases rounds <;> rfl
  rw [compilePattern, List.length_cons, compileLoop, if_pos rfl, h]
  dsimp only
  rw [hend, userFormatter, List.append_nil]
  rfl

theorem compilePattern_time {flag : Char} (hflag : flag ∈ timeFlags) (now : ℤ) :
    ∃ f, TimeFormatter flag f ∧
      compilePattern now (plainPattern flag) = [f.withPadding .none] ∧
      ∀ padinfo, padinfo.enabled = true →
        compilePattern now (paddedPattern padinfo flag) = [f.withPadding padinfo] := by
  obtain ⟨f, hf, hformatters⟩ := exists_timeFormatter hflag now
  have hletters : timeFlags.all (fun flag => charByte flag ≠ charByte '-' ∧
      charByte flag ≠ charByte '=' ∧ charByte flag ≠ charByte '!' ∧
        ¬ isDigit (charByte flag)) = true := by
    decide
  obtain ⟨hminus, hequals, hbang, hdigit⟩ :=
    of_decide_eq_true (List.all_eq_true.mp hletters flag hflag)
  have hplain : handlePadspec [charByte flag] = (.none, [charByte flag]) := by
    rw [handlePadspec]
    dsimp only
    rw [if_neg hminus, if_neg hequals, if_neg hdigit]
    rfl
  refine ⟨f, hf, ?_, fun padinfo henabled => ?_⟩
  · rw [plainPattern, compilePattern_flag now hplain, hformatters]
  · have hspec := handlePadspec_spec padinfo henabled [charByte flag] (.inr ?_)
    · rw [paddedPattern, compilePattern_flag now hspec, hformatters]
    · intro c hc
      obtain rfl := Option.some.inj hc
      exact ⟨hdigit, hbang⟩

namespace PatternFormatter

variable {env : Environment} {pf qf : PatternFormatter}

/-- A call of `format` of a formatter without padding, with the text it appends padded. -/
def stepPadded (padinfo : PaddingInfo) (env : Environment) (qf : PatternFormatter)
    (call : Record × Target) : Except Failure (PatternFormatter × Target) :=
  (qf.step env call).map fun (qf', t') =>
    (qf', call.2.append (padinfo.apply (t'.dest.drop call.2.dest.length)))

/-- A formatter of a padded flag and one of the flag without padding. -/
structure PaddedBeside (flag : Char) (padinfo : PaddingInfo) (timeType : PatternTimeType)
    (pf qf : PatternFormatter) : Prop where
  formatters : ∃ f, TimeFormatter flag f ∧ pf.formatters = [f.withPadding padinfo] ∧
    qf.formatters = [f.withPadding .none]
  eol : pf.eol = [] ∧ qf.eol = []
  patternTimeType : pf.patternTimeType = timeType ∧ qf.patternTimeType = timeType
  cachedTm : pf.cachedTm = qf.cachedTm
  lastLogSecs : pf.lastLogSecs = qf.lastLogSecs
  printable : qf.cachedTm.Printable

/-- A formatter with one flag that makes a field. -/
theorem step_of_made (env : Environment) {call : Record × Target} {f : FlagFormatter}
    {padinfo : PaddingInfo} {field : Field} (hformatters : pf.formatters = [f.withPadding padinfo])
    (hmade : f.made env.pid call.1 (pf.refresh env call.1).cachedTm = some field) :
    pf.step env call = (FlagFormatter.writeField padinfo (some field) call.2).map fun t' =>
      ({ pf.refresh env call.1 with
        formatters := [(f.next call.1 (pf.refresh env call.1).cachedTm).withPadding padinfo] },
        t'.append pf.eol) := by
  rw [step, format_eq, hformatters, formatAll_singleton, FlagFormatter.write_of_made hmade,
    FlagFormatter.next_withPadding]
  cases FlagFormatter.writeField padinfo (some field) call.2 <;> rfl

/-- The step: the formatters stay side by side, and answer alike if the size is known. -/
theorem PaddedBeside.step {flag : Char} {padinfo : PaddingInfo} {timeType : PatternTimeType}
    (h : PaddedBeside flag padinfo timeType pf qf)
    {call : Record × Target} (htime : 0 ≤ call.1.time)
    (htm : (env.timeAt timeType (toTimeT call.1.time)).Printable) :
    ∃ pf' qf' field, PaddedBeside flag padinfo timeType pf' qf' ∧
      (field.Pads padinfo ↔
        SizeKnown flag padinfo call.1 (qf.refresh env call.1).cachedTm) ∧
      pf.step env call = (FlagFormatter.writeField padinfo (some field) call.2).map (pf', ·) ∧
      qf.stepPadded padinfo env call = .ok (qf', call.2.append (padinfo.apply field.text)) := by
  obtain ⟨f, hf, hformatters, hformatters'⟩ := h.formatters
  have hcached := cachedTm_refresh_congr (h.patternTimeType.1.trans h.patternTimeType.2.symm)
    h.cachedTm h.lastLogSecs env call.1
  have hprintable : (qf.refresh env call.1).cachedTm.Printable := by
    unfold refresh
    dsimp only
    split_ifs
    · rw [getTime_eq, h.patternTimeType.2]
      exact htm
    · exact h.printable
  obtain ⟨field, hmade, hpads⟩ := exists_made env.pid hf hprintable htime
  obtain ⟨htype, heol⟩ := refresh_same env call.1 pf
  obtain ⟨htype', heol'⟩ := refresh_same env call.1 qf
  have hnoEol (t : Target) : t.append [] = t := by rw [Target.append, List.append_nil]
  have hstep := step_of_made env hformatters (by rw [hcached]; exact hmade)
  have hstep' := step_of_made env hformatters' hmade
  simp only [h.eol.1, h.eol.2, hnoEol] at hstep hstep'
  refine ⟨_, { qf.refresh env call.1 with
    formatters := [(f.next call.1 (qf.refresh env call.1).cachedTm).withPadding .none] },
    field, ?_, hpads padinfo, hstep, ?_⟩
  · exact {
      formatters := ⟨_, hf.next hprintable, by rw [hcached], rfl⟩
      eol := ⟨heol.trans h.eol.1, heol'.trans h.eol.2⟩
      patternTimeType := ⟨htype.trans h.patternTimeType.1, htype'.trans h.patternTimeType.2⟩
      cachedTm := hcached
      lastLogSecs := (lastLogSecs_refresh env call.1 pf).trans
        (lastLogSecs_refresh env call.1 qf).symm
      printable := hprintable }
  · rw [stepPadded, hstep', FlagFormatter.writeField_none]
    simp [Except.map, Target.append]

/-- Flags of date and time are padded as the text is to be padded, in a sequence of messages,
if and only if the size of each text is known. -/
theorem padded_dates_iff (env : Environment) (now : ℤ) (flag : Char) (hflag : flag ∈ timeFlags)
    (padinfo : PaddingInfo) (henabled : padinfo.enabled = true) (timeType : PatternTimeType)
    (calls : List (Record × Target))
    (hcalls : ∀ call ∈ calls, 0 ≤ call.1.time ∧
      (env.timeAt timeType (toTimeT call.1.time)).Printable) :
    Runs.answers (step env) (new now (paddedPattern padinfo flag) timeType []) calls =
        Runs.answers (stepPadded padinfo env) (new now (plainPattern flag) timeType []) calls ↔
      ∀ p ∈ Runs.reached (step env) (new now (plainPattern flag) timeType []) calls,
        SizeKnown flag padinfo p.2.1 (p.1.refresh env p.2.1).cachedTm := by
  obtain ⟨f, hf, hplain, hpadded⟩ := compilePattern_time hflag now
  have hstart : PaddedBeside flag padinfo timeType
      (new now (paddedPattern padinfo flag) timeType [])
      (new now (plainPattern flag) timeType []) := {
    formatters := ⟨f, hf, hpadded padinfo henabled, hplain⟩
    eol := ⟨rfl, rfl⟩
    patternTimeType := ⟨rfl, rfl⟩
    cachedTm := rfl
    lastLogSecs := rfl
    printable := ⟨Tm.zero_inRange, Nat.zero_lt_succ _⟩ }
  -- Padding what has been written does not change what is reached.
  have hreached : Runs.reached (step env) (new now (plainPattern flag) timeType []) calls =
      Runs.reached (stepPadded padinfo env) (new now (plainPattern flag) timeType []) calls := by
    apply Runs.reached_congr
    intro qf call
    rw [stepPadded]
    cases qf.step env call <;> rfl
  rw [hreached]
  refine Runs.answers_eq_iff (R := PaddedBeside flag padinfo timeType)
    (C := fun (qf : PatternFormatter) (call : Record × Target) =>
      SizeKnown flag padinfo call.1 (qf.refresh env call.1).cachedTm) ?_ ?_ hstart
  · intro call hcall pf qf h hknown
    obtain ⟨htime, htm⟩ := hcalls call hcall
    obtain ⟨pf', qf', field, hbeside, hpads, hstep, hstep'⟩ := h.step htime htm
    rw [hstep, hstep', (FlagFormatter.writeField_eq_iff henabled field call.2).mpr
      (hpads.mpr hknown)]
    exact .answered _ hbeside
  · intro call hcall pf qf h hunknown heq
    obtain ⟨htime, htm⟩ := hcalls call hcall
    obtain ⟨pf', qf', field, -, hpads, hstep, hstep'⟩ := h.step htime htm
    refine hunknown (hpads.mp ((FlagFormatter.writeField_eq_iff henabled field call.2).mp ?_))
    rw [hstep, hstep'] at heq
    cases hwrite : FlagFormatter.writeField padinfo (some field) call.2 with
    | error failure =>
        rw [hwrite] at heq
        cases heq
    | ok t' =>
        rw [hwrite] at heq
        exact heq

theorem padded_dates_iff_sample :
    Runs.answers (step sampleEnvironment)
        (new 0 (paddedPattern ⟨12, .center, true, true, by decide⟩ 'T') .utc [])
        [(sampleMessage, ⟨ascii "> ", 0, 0⟩)] =
      Runs.answers (stepPadded ⟨12, .center, true, true, by decide⟩ sampleEnvironment)
        (new 0 (plainPattern 'T') .utc []) [(sampleMessage, ⟨ascii "> ", 0, 0⟩)] := by
  refine (padded_dates_iff sampleEnvironment 0 'T' (by decide)
    ⟨12, .center, true, true, by decide⟩ rfl .utc _ ?_).mpr fun _ _ => trivial
  intro call hcall
  rw [List.mem_singleton.mp hcall]
  exact ⟨by decide, Zone.constant_inRange (by decide) (by decide), by decide⟩

/-- `%D` is two spaces short. -/
theorem padded_dates_short :
    let calls : List (Record × Target) := [(sampleMessage, ⟨[], 0, 0⟩)]
    let padinfo : PaddingInfo := ⟨12, .right, false, true, by decide⟩
    let padded := Runs.answers (step sampleEnvironment)
      (new 0 (paddedPattern padinfo 'D') .utc []) calls
    let expected := Runs.answers (stepPadded padinfo sampleEnvironment)
      (new 0 (plainPattern 'D') .utc []) calls
    padded = [.ok ⟨ascii "11/14/23  ", 0, 0⟩] ∧ expected = [.ok ⟨ascii "11/14/23    ", 0, 0⟩] ∧
      padded ≠ expected := by
  intro calls padinfo padded expected
  have hpadded : padded = [.ok ⟨ascii "11/14/23  ", 0, 0⟩] := by decide
  have hexpected : expected = [.ok ⟨ascii "11/14/23    ", 0, 0⟩] := by decide
  refine ⟨hpadded, hexpected, ?_⟩
  rw [hpadded, hexpected]
  decide

end PatternFormatter

end Structlog
