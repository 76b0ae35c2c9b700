import Structlog.LocalTime
import Structlog.LogMsg

/-!
# The flag formatters of `pattern_formatter`

Most flag formatters tell a `scoped_padder` how many bytes they are going to
write and then write: `Field` is both, and each of these formatters is the field
it makes of a message (`Flag.field`).  What the padder does when the two differ is
its own affair: it pads for the size it was told, and when the field is to be cut
it takes the excess of that size off the end of the buffer.

The formatters with a state of their own, and those that write without a padder,
are the other constructors of `FlagFormatter`.  A formatter works on a `Target`,
the buffer with the colour range of the message.
-/

namespace Structlog

open Lib

/-- How a formatter can fail: by an exception, by one that leaves a destructor
(`std::terminate`), or without any defined behaviour (a null string is read). -/
inductive Failure
  | threw (thrown : Thrown)
  | terminated
  | undefined
  deriving DecidableEq, Repr

/-- What a formatter changes: the buffer, and `color_range_start` and
`color_range_end` of the message. -/
structure Target where
  dest : Bytes
  colorRangeStart : ℕ
  colorRangeEnd : ℕ
  deriving DecidableEq, Repr

def Target.append (text : Bytes) (t : Target) : Target := { t with dest := t.dest ++ text }

/-! ## Padding -/

inductive PadSide
  | left
  | right
  | center
  deriving DecidableEq, Repr

/-- The width is never more than the 64 spaces a padder has. -/
def maxWidth : ℕ := 64

/-- `padding_info`. -/
structure PaddingInfo where
  width : ℕ := 0
  side : PadSide := .left
  truncate : Bool := false
  enabled : Bool := false
  width_le : width ≤ maxWidth := by decide

/-- `padding_info()`. -/
def PaddingInfo.none : PaddingInfo := ⟨0, .left, false, false, Nat.zero_le maxWidth⟩

def spaces (count : ℕ) : Bytes := List.replicate count (charByte ' ')

namespace ScopedPadder

/-- `scoped_padder(wrapped_size, padinfo, dest)`: the buffer, and
`remaining_pad_`. -/
def construct (wrappedSize : ℕ) (padinfo : PaddingInfo) (dest : Bytes) : Bytes × ℤ :=
  let remainingPad : ℤ := (padinfo.width : ℤ) - wrappedSize
  if remainingPad ≤ 0 then (dest, remainingPad)
  else
    match padinfo.side with
    | .left => (dest ++ spaces remainingPad.toNat, 0)
    | .center =>
        let halfPad := remainingPad / 2
        let reminder := remainingPad % 2
        (dest ++ spaces halfPad.toNat, halfPad + reminder)
    | .right => (dest, remainingPad)

/-- `~scoped_padder`.  A size below zero is a huge `size_t`, for which `resize`
throws. -/
def destruct (padinfo : PaddingInfo) (remainingPad : ℤ) (dest : Bytes) : Except Failure Bytes :=
  if 0 ≤ remainingPad then .ok (dest ++ spaces remainingPad.toNat)
  else if padinfo.truncate then
    let newSize := (dest.length : ℤ) + remainingPad
    if newSize < 0 then .error .terminated else .ok (dest.take newSize.toNat)
  else .ok dest

end ScopedPadder

/-- What a flag formatter gives to its padder as the size, and what it writes. -/
structure Field where
  fieldSize : ℕ
  text : Bytes
  deriving DecidableEq, Repr

/-- Write between the construction and the destruction of the padder, which is a
`null_scoped_padder` unless padding is enabled. -/
def Field.write (padinfo : PaddingInfo) (field : Field) (dest : Bytes) : Except Failure Bytes :=
  if padinfo.enabled then
    let (dest, remainingPad) := ScopedPadder.construct field.fieldSize padinfo dest
    ScopedPadder.destruct padinfo remainingPad (dest ++ field.text)
  else .ok (dest ++ field.text)

/-- A text of exactly the size given. -/
def Field.exact (text : Bytes) : Field := ⟨text.length, text⟩

/-- The spaces before the text, of so many altogether. -/
def PadSide.before (count : ℕ) : PadSide → ℕ
  | left => count
  | right => 0
  | center => count / 2

/-- A field that is narrower than the width is padded. -/
theorem Field.write_of_lt {padinfo : PaddingInfo} (henabled : padinfo.enabled = true)
    {field : Field} (h : field.fieldSize < padinfo.width) (dest : Bytes) :
    field.write padinfo dest =
      let count := padinfo.width - field.fieldSize
      .ok (dest ++ spaces (padinfo.side.before count) ++ field.text ++
        spaces (count - padinfo.side.before count)) := by
  have hpos : ¬ (padinfo.width : ℤ) - field.fieldSize ≤ 0 := by omega
  have hcount :
      ((padinfo.width : ℤ) - field.fieldSize).toNat = padinfo.width - field.fieldSize := by
    omega
  rw [Field.write, if_pos henabled, ScopedPadder.construct]
  simp only [if_neg hpos]
  cases padinfo.side with
  | left =>
      rw [ScopedPadder.destruct, if_pos le_rfl]
      simp [PadSide.before, spaces, hcount]
  | right =>
      dsimp only
      rw [ScopedPadder.destruct, if_pos (by omega)]
      simp [PadSide.before, spaces, hcount]
  | center =>
      dsimp only
      have hhalf : (((padinfo.width : ℤ) - field.fieldSize) / 2).toNat =
        (padinfo.width - field.fieldSize) / 2 := by omega
      have hrest : (((padinfo.width : ℤ) - field.fieldSize) / 2 +
          ((padinfo.width : ℤ) - field.fieldSize) % 2).toNat =
        padinfo.width - field.fieldSize - (padinfo.width - field.fieldSize) / 2 := by omega
      rw [ScopedPadder.destruct, if_pos (by omega)]
      simp [PadSide.before, spaces, hhalf, hrest]

/-- A field that is at least as wide is written, and cut by the excess of the size
that was given. -/
theorem Field.write_of_le {padinfo : PaddingInfo} (henabled : padinfo.enabled = true)
    {field : Field} (h : padinfo.width ≤ field.fieldSize) (dest : Bytes) :
    field.write padinfo dest =
      let written := dest ++ field.text
      let excess := field.fieldSize - padinfo.width
      if padinfo.truncate then
        if written.length < excess then .error .terminated
        else .ok (written.take (written.length - excess))
      else .ok written := by
  have hle : (padinfo.width : ℤ) - field.fieldSize ≤ 0 := by omega
  rw [Field.write, if_pos henabled, ScopedPadder.construct]
  simp only [if_pos hle]
  rw [ScopedPadder.destruct]
  by_cases hzero : 0 ≤ (padinfo.width : ℤ) - field.fieldSize
  · have hnone : field.fieldSize - padinfo.width = 0 := by omega
    have hwhole := List.take_length (l := dest ++ field.text)
    rw [if_pos hzero, hnone, show ((padinfo.width : ℤ) - field.fieldSize).toNat = 0 by omega]
    simp only [spaces, List.replicate_zero, List.append_nil, Nat.not_lt_zero, if_false,
      Nat.sub_zero, hwhole, ite_self]
  · rw [if_neg hzero]
    have hiff : ((dest ++ field.text).length : ℤ) + ((padinfo.width : ℤ) - field.fieldSize) < 0 ↔
        (dest ++ field.text).length < field.fieldSize - padinfo.width := by omega
    have hsize : (((dest ++ field.text).length : ℤ) +
          ((padinfo.width : ℤ) - field.fieldSize)).toNat =
        (dest ++ field.text).length - (field.fieldSize - padinfo.width) := by omega
    simp only [hiff, hsize]

/-- A field is appended if what is cut off is not more than its text. -/
theorem Field.appends_iff (padinfo : PaddingInfo) (field : Field) (dest : Bytes) :
    (∃ dest', field.write padinfo dest = .ok dest' ∧ dest <+: dest') ↔
      (padinfo.enabled → padinfo.truncate →
        field.fieldSize - field.text.length ≤ padinfo.width) := by
  cases henabled : padinfo.enabled with
  | false => simp [Field.write, henabled]
  | true =>
      by_cases hlt : field.fieldSize < padinfo.width
      · rw [Field.write_of_lt henabled hlt]
        refine iff_of_true ⟨_, rfl, ?_⟩ fun _ _ => by omega
        rw [List.append_assoc, List.append_assoc]
        exact List.prefix_append _ _
      · rw [Field.write_of_le henabled (by omega)]
        cases htruncate : padinfo.truncate with
        | false => simp
        | true =>
            dsimp only
            rw [if_pos rfl, List.length_append]
            split_ifs with hshort
            · apply iff_of_false (by simp)
              intro h
              have := h rfl rfl
              omega
            · constructor
              · rintro ⟨_, ⟨⟩, hprefix⟩ - -
                have := hprefix.length_le
                rw [List.length_take, List.length_append] at this
                omega
              · intro h
                have := h rfl rfl
                refine ⟨_, rfl, List.prefix_take_iff.mpr ⟨List.prefix_append _ _, ?_⟩⟩
                omega

/-! ## `fmt_helper` -/

namespace FmtHelper

def digit (n : ℕ) : UInt8 := UInt8.ofNat (48 + n)

def pad2 (n : ℤ) : Bytes :=
  if 0 ≤ n ∧ n < 100 then [digit (n / 10).toNat, digit (n % 10).toNat] else zeroPaddedInt 2 n

/-- `pad3` of a `uint32_t`. -/
def pad3 (n : ℕ) : Bytes :=
  if n < 1000 then [digit (n / 100), digit (n % 100 / 10), digit (n % 100 % 10)] else decimal n

def padUint (n width : ℕ) : Bytes := zeroPadded width n

def pad6 (n : ℕ) : Bytes := padUint n 6

def pad9 (n : ℕ) : Bytes := padUint n 9

/-- `time_fraction<ToDuration>`, for a duration of so many nanoseconds. -/
def timeFraction (duration time : ℤ) : ℤ :=
  time.tdiv duration - time.tdiv nanos * nanos.tdiv duration

/-- `count_digits` of an `int`, as an unsigned one. -/
def countDigitsInt (n : ℤ) : ℕ := decimalLength (n % 2 ^ 32).toNat

end FmtHelper

/-! ## Flags that make a field -/

open FmtHelper

def ampm (t : Tm) : Bytes := if t.hour ≥ 12 then ascii "PM" else ascii "AM"

def to12h (t : Tm) : ℤ := if t.hour > 12 then t.hour - 12 else t.hour

def days : List Bytes := ["Sun", "Mon", "Tue", "Wed", "Thu", "Fri", "Sat"].map ascii

def fullDays : List Bytes :=
  ["Sunday", "Monday", "Tuesday", "Wednesday", "Thursday", "Friday", "Saturday"].map ascii

def months : List Bytes :=
  ["Jan", "Feb", "Mar", "Apr", "May", "Jun", "Jul", "Aug", "Sept", "Oct", "Nov", "Dec"].map ascii

def fullMonths : List Bytes :=
  ["January", "February", "March", "April", "May", "June", "July", "August", "September",
    "October", "November", "December"].map ascii

def nameFormatter (msg : Record) : Field := .exact msg.loggerName

def levelFormatter (msg : Record) : Field := .exact msg.level.toStringView

def shortLevelFormatter (msg : Record) : Field := .exact msg.level.toShortCStr

def aFormatter (tm : Tm) : Field := .exact (days.getD tm.wday.toNat [])

def AFormatter (tm : Tm) : Field := .exact (fullDays.getD tm.wday.toNat [])

def bFormatter (tm : Tm) : Field := .exact (months.getD tm.mon.toNat [])

def BFormatter (tm : Tm) : Field := .exact (fullMonths.getD tm.mon.toNat [])

def cFormatter (tm : Tm) : Field where
  fieldSize := 24
  text :=
    days.getD tm.wday.toNat [] ++ ascii " " ++ months.getD tm.mon.toNat [] ++ ascii " " ++
      decimalInt tm.mday ++ ascii " " ++ pad2 tm.hour ++ ascii ":" ++ pad2 tm.min ++ ascii ":" ++
      pad2 tm.sec ++ ascii " " ++ decimalInt (tm.year + 1900)

def CFormatter (tm : Tm) : Field := ⟨2, pad2 (tm.year.tmod 100)⟩

def DFormatter (tm : Tm) : Field where
  fieldSize := 10
  text := pad2 (tm.mon + 1) ++ ascii "/" ++ pad2 tm.mday ++ ascii "/" ++ pad2 (tm.year.tmod 100)

def YFormatter (tm : Tm) : Field := ⟨4, decimalInt (tm.year + 1900)⟩

def mFormatter (tm : Tm) : Field := ⟨2, pad2 (tm.mon + 1)⟩

def dFormatter (tm : Tm) : Field := ⟨2, pad2 tm.mday⟩

def HFormatter (tm : Tm) : Field := ⟨2, pad2 tm.hour⟩

def IFormatter (tm : Tm) : Field := ⟨2, pad2 (to12h tm)⟩

def MFormatter (tm : Tm) : Field := ⟨2, pad2 tm.min⟩

def SFormatter (tm : Tm) : Field := ⟨2, pad2 tm.sec⟩

def eFormatter (msg : Record) : Field :=
  ⟨3, pad3 (timeFraction 1000000 msg.time % 2 ^ 32).toNat⟩

def fFormatter (msg : Record) : Field := ⟨6, pad6 (timeFraction 1000 msg.time % 2 ^ 64).toNat⟩

def FFormatter (msg : Record) : Field := ⟨9, pad9 (timeFraction 1 msg.time % 2 ^ 64).toNat⟩

def EFormatter (msg : Record) : Field := ⟨10, decimalInt (msg.time.tdiv nanos)⟩

def pFormatter (tm : Tm) : Field := ⟨2, ampm tm⟩

def rFormatter (tm : Tm) : Field where
  fieldSize := 11
  text :=
    pad2 (to12h tm) ++ ascii ":" ++ pad2 tm.min ++ ascii ":" ++ pad2 tm.sec ++ ascii " " ++ ampm tm

def RFormatter (tm : Tm) : Field := ⟨5, pad2 tm.hour ++ ascii ":" ++ pad2 tm.min⟩

def TFormatter (tm : Tm) : Field :=
  ⟨8, pad2 tm.hour ++ ascii ":" ++ pad2 tm.min ++ ascii ":" ++ pad2 tm.sec⟩

def tFormatter (msg : Record) : Field := ⟨decimalLength msg.threadId, decimal msg.threadId⟩

/-- `pid` is what `details::os::pid()` returns. -/
def pidFormatter (pid : ℤ) : Field :=
  ⟨decimalLength (pid % 2 ^ 32).toNat, decimal (pid % 2 ^ 32).toNat⟩

def vFormatter (msg : Record) : Field := .exact msg.payload

/-- Nothing is written for an empty source location; else a null string is read
as if it were one. -/
def sourceField (source : SourceLoc) (string : Option Bytes) (make : Bytes → Field) :
    Except Failure (Option Field) :=
  if source.empty then .ok none
  else
    match string with
    | none => .error .undefined
    | some string => .ok (some (make string))

def sourceLocationFormatter (msg : Record) : Except Failure (Option Field) :=
  sourceField msg.source msg.source.filename fun filename =>
    { fieldSize := filename.length + countDigitsInt msg.source.line + 1
      text := filename ++ ascii ":" ++ decimalInt msg.source.line }

def sourceFilenameFormatter (msg : Record) : Except Failure (Option Field) :=
  sourceField msg.source msg.source.filename .exact

/-- `short_filename_formatter::basename`, with the one separator `/`. -/
def basename (filename : Bytes) : Bytes :=
  match rfind (charByte '/') filename with
  | some i => filename.drop (i + 1)
  | none => filename

/-- `short_filename_formatter::format`, with `name` for `basename`. -/
def shortFilenameFormatter (name : Bytes → Bytes) (msg : Record) : Except Failure (Option Field) :=
  sourceField msg.source msg.source.filename fun filename => .exact (name filename)

def sourceLinenumFormatter (msg : Record) : Except Failure (Option Field) :=
  sourceField msg.source (some []) fun _ =>
    ⟨countDigitsInt msg.source.line, decimalInt msg.source.line⟩

def sourceFuncnameFormatter (msg : Record) : Except Failure (Option Field) :=
  sourceField msg.source msg.source.funcname .exact

/-- The flag formatters that are determined by the message and its broken-down
time. -/
inductive Flag
  | n | l | L | t | v | a | A | b | B | c | C | Y | D | m | d | H | I | M | S | e | f | F | E | p
  | r | R | T | P
  | sourceLocation
  | shortFilename
  | sourceFilename
  | sourceLinenum
  | sourceFuncname
  deriving DecidableEq, Repr

/-- The field a flag makes, if it makes one, with `name` for `basename`. -/
def Flag.fieldBy (name : Bytes → Bytes) (pid : ℤ) (msg : Record) (tm : Tm) :
    Flag → Except Failure (Option Field)
  | n => .ok (nameFormatter msg)
  | l => .ok (levelFormatter msg)
  | L => .ok (shortLevelFormatter msg)
  | t => .ok (tFormatter msg)
  | v => .ok (vFormatter msg)
  | a => .ok (aFormatter tm)
  | A => .ok (AFormatter tm)
  | b => .ok (bFormatter tm)
  | B => .ok (BFormatter tm)
  | c => .ok (cFormatter tm)
  | C => .ok (CFormatter tm)
  | Y => .ok (YFormatter tm)
  | D => .ok (DFormatter tm)
  | m => .ok (mFormatter tm)
  | d => .ok (dFormatter tm)
  | H => .ok (HFormatter tm)
  | I => .ok (IFormatter tm)
  | M => .ok (MFormatter tm)
  | S => .ok (SFormatter tm)
  | e => .ok (eFormatter msg)
  | f => .ok (fFormatter msg)
  | F => .ok (FFormatter msg)
  | E => .ok (EFormatter msg)
  | p => .ok (pFormatter tm)
  | r => .ok (rFormatter tm)
  | R => .ok (RFormatter tm)
  | T => .ok (TFormatter tm)
  | P => .ok (pidFormatter pid)
  | sourceLocation => sourceLocationFormatter msg
  | shortFilename => shortFilenameFormatter name msg
  | sourceFilename => sourceFilenameFormatter msg
  | sourceLinenum => sourceLinenumFormatter msg
  | sourceFuncname => sourceFuncnameFormatter msg

def Flag.field (pid : ℤ) (msg : Record) (tm : Tm) (flag : Flag) : Except Failure (Option Field) :=
  flag.fieldBy basename pid msg tm

/-! ## Declared and written sizes -/

theorem two_le_length_pad2 (n : ℤ) : 2 ≤ (pad2 n).length := by
  unfold pad2
  split_ifs
  · exact le_rfl
  · exact le_length_zeroPaddedInt 2 n

theorem length_pad2 {n : ℤ} (hlow : 0 ≤ n) (hhigh : n < 100) : (pad2 n).length = 2 := by
  rw [pad2, if_pos ⟨hlow, hhigh⟩]
  rfl

theorem three_le_length_pad3 (n : ℕ) : 3 ≤ (pad3 n).length := by
  unfold pad3
  split_ifs with h
  · exact le_rfl
  · rw [length_decimal]
    by_contra hshort
    have := (decimalLength_le_iff (n := n) (k := 3) (by decide)).mp (by omega)
    omega

theorem le_length_padUint (n width : ℕ) : width ≤ (padUint n width).length := by
  rw [padUint, length_zeroPadded]
  omega

theorem length_ampm (t : Tm) : (ampm t).length = 2 := by
  unfold ampm
  split_ifs <;> rfl

theorem length_days_getD {i : ℕ} (h : i < 7) : (days.getD i []).length = 3 := by
  interval_cases i <;> rfl

theorem length_months_getD {i : ℕ} (h : i < 12) :
    (months.getD i []).length = if i = 8 then 4 else 3 := by
  interval_cases i <;> rfl

theorem length_year {tm : Tm} (h : tm.InRange) : (decimalInt (tm.year + 1900)).length = 4 := by
  have hyear := h.year
  rw [length_decimalInt, if_neg (by omega)]
  exact decimalLength_eq (k := 3) (by omega) (by omega) (by decide)

theorem length_mday {tm : Tm} (h : tm.InRange) :
    (decimalInt tm.mday).length = if tm.mday < 10 then 1 else 2 := by
  have hmday := h.mday
  rw [length_decimalInt, if_neg (by omega)]
  split_ifs with hshort
  · have hle := (decimalLength_le_iff (n := tm.mday.natAbs) (k := 1) (by decide)).mpr (by omega)
    have hpos := decimalLength_pos tm.mday.natAbs
    omega
  · exact decimalLength_eq (k := 1) (by omega) (by omega) (by decide)

/-- `%c` writes a day of one digit or two, and a month of three letters or four. -/
theorem length_text_cFormatter {tm : Tm} (h : tm.InRange) :
    (cFormatter tm).text.length =
      19 + (if tm.mon = 8 then 4 else 3) + (if tm.mday < 10 then 1 else 2) := by
  have hwday := h.wday
  have hmon := h.mon
  have hhour := h.hour
  have hmin := h.min
  have hsec := h.sec
  have hday := length_days_getD (i := tm.wday.toNat) (by omega)
  have hmonth := length_months_getD (i := tm.mon.toNat) (by omega)
  have hspace : (ascii " ").length = 1 := rfl
  have hcolon : (ascii ":").length = 1 := rfl
  have hsept : tm.mon.toNat = 8 ↔ tm.mon = 8 := by omega
  simp only [cFormatter, List.length_append, hday, hmonth, length_mday h, length_year h,
    length_pad2 hhour.1 (by omega), length_pad2 hmin.1 (by omega), length_pad2 hsec.1 (by omega),
    hspace, hcolon, hsept]
  omega

/-- `%c` declares 24 bytes. -/
theorem length_cFormatter {tm : Tm} (h : tm.InRange) :
    24 - (cFormatter tm).text.length = if tm.mday < 10 ∧ tm.mon ≠ 8 then 1 else 0 := by
  rw [length_text_cFormatter h]
  split_ifs <;> omega

/-- `%D` declares 10 bytes and writes 8. -/
theorem length_DFormatter {tm : Tm} (h : tm.InRange) : (DFormatter tm).text.length = 8 := by
  have hmon := h.mon
  have hmday := h.mday
  have hyear := h.year
  have hcentury : tm.year.tmod 100 = tm.year % 100 := Int.tmod_eq_emod_of_nonneg hyear.1
  simp only [DFormatter, List.length_append, length_pad2 (n := tm.mon + 1) (by omega) (by omega),
    length_pad2 hmday.1 (by omega), hcentury,
    length_pad2 (n := tm.year % 100) (by omega) (by omega)]
  rfl

/-- By how much a flag declares more than it writes. -/
def Flag.shortfall (msg : Record) (tm : Tm) : Flag → ℕ
  | c => if tm.mday < 10 ∧ tm.mon ≠ 8 then 1 else 0
  | D => 2
  | E => 10 - (decimalInt (msg.time.tdiv nanos)).length
  | sourceLocation | sourceLinenum =>
      if 0 ≤ msg.source.line then 0
      else countDigitsInt msg.source.line - (decimalInt msg.source.line).length
  | _ => 0

/-- No null string is read for the flag. -/
def Flag.Readable (msg : Record) : Flag → Prop
  | sourceLocation | shortFilename | sourceFilename =>
      msg.source.empty = true ∨ msg.source.filename.isSome
  | sourceFuncname => msg.source.empty = true ∨ msg.source.funcname.isSome
  | _ => True

/-- A line number that is not negative is as long as declared. -/
theorem countDigitsInt_le {line : ℤ} (h : 0 ≤ line) :
    countDigitsInt line ≤ (decimalInt line).length := by
  rw [length_decimalInt, if_neg (by omega), Nat.add_zero]
  exact decimalLength_mono (by omega)

theorem sourceField_eq_some {source : SourceLoc} {string : Option Bytes} {make : Bytes → Field}
    {field : Field} (h : sourceField source string make = .ok (some field)) :
    ∃ s, field = make s := by
  unfold sourceField at h
  split_ifs at h
  · simp at h
  · cases string with
    | none => simp at h
    | some s => exact ⟨s, by simpa using h.symm⟩

/-- The lengths of the flags that never write less than they declare. -/
theorem Flag.fieldSize_le {pid : ℤ} {msg : Record} {tm : Tm} {flag : Flag} {field : Field}
    (h : flag.field pid msg tm = .ok (some field)) (hc : flag ≠ .c) (hD : flag ≠ .D)
    (hE : flag ≠ .E) (hlocation : flag ≠ .sourceLocation) (hlinenum : flag ≠ .sourceLinenum)
    (htm : tm.InRange) : field.fieldSize ≤ field.text.length := by
  have hcolon : (ascii ":").length = 1 := rfl
  have hspace : (ascii " ").length = 1 := rfl
  have hhour := two_le_length_pad2 tm.hour
  have hhour12 := two_le_length_pad2 (to12h tm)
  have hmin := two_le_length_pad2 tm.min
  have hsec := two_le_length_pad2 tm.sec
  cases flag
  case c | D | E | sourceLocation | sourceLinenum => contradiction
  case shortFilename | sourceFilename | sourceFuncname =>
    obtain ⟨s, rfl⟩ := sourceField_eq_some h
    exact le_rfl
  all_goals
    obtain rfl := Option.some.inj (Except.ok.inj h)
  case n | l | L | v | a | A | b | B => exact le_rfl
  case t | P => exact (length_decimal _).ge
  case C | m | d | H | I | M | S => exact two_le_length_pad2 _
  case Y => exact (length_year htm).ge
  case e => exact three_le_length_pad3 _
  case f | F => exact le_length_padUint _ _
  case p => exact (length_ampm tm).ge
  case r =>
    simp only [rFormatter, List.length_append, hcolon, hspace, length_ampm]
    omega
  case R =>
    simp only [RFormatter, List.length_append, hcolon]
    omega
  case T =>
    simp only [TFormatter, List.length_append, hcolon]
    omega

theorem Flag.shortfall_spec {pid : ℤ} {msg : Record} {tm : Tm} (htm : tm.InRange) {flag : Flag}
    {field : Field} (h : flag.field pid msg tm = .ok (some field)) :
    field.fieldSize - field.text.length = flag.shortfall msg tm := by
  cases flag
  case c =>
    obtain rfl := Option.some.inj (Except.ok.inj h)
    exact length_cFormatter htm
  case D =>
    obtain rfl := Option.some.inj (Except.ok.inj h)
    rw [length_DFormatter htm]
    rfl
  case E =>
    obtain rfl := Option.some.inj (Except.ok.inj h)
    rfl
  case sourceLocation =>
    obtain ⟨filename, rfl⟩ := sourceField_eq_some h
    have hcolon : (ascii ":").length = 1 := rfl
    simp only [List.length_append, hcolon, Flag.shortfall]
    split_ifs with hline
    · have := countDigitsInt_le hline
      omega
    · omega
  case sourceLinenum =>
    have hmade : sourceLinenumFormatter msg = .ok (some field) := h
    unfold sourceLinenumFormatter at hmade
    obtain ⟨-, rfl⟩ := sourceField_eq_some hmade
    simp only [Flag.shortfall]
    split_ifs with hline
    · exact Nat.sub_eq_zero_of_le (countDigitsInt_le hline)
    · rfl
  all_goals
    exact Nat.sub_eq_zero_of_le (Flag.fieldSize_le h (by decide) (by decide) (by decide) (by decide)
      (by decide) htm)

/-- The outcomes of a source flag. -/
theorem sourceField_cases (source : SourceLoc) (string : Option Bytes) (make : Bytes → Field) :
    (source.empty = true ∧ sourceField source string make = .ok none) ∨
    (source.empty = false ∧ string = none ∧ sourceField source string make = .error .undefined) ∨
    (∃ s, string = some s ∧ sourceField source string make = .ok (some (make s))) := by
  unfold sourceField
  cases hempty : source.empty with
  | true => exact Or.inl ⟨rfl, rfl⟩
  | false =>
      cases string with
      | none => exact Or.inr (Or.inl ⟨rfl, rfl, rfl⟩)
      | some s => exact Or.inr (Or.inr ⟨s, rfl, rfl⟩)

/-- The outcomes of a flag: a null string is read, nothing is written, or a field
is. -/
theorem Flag.field_cases (pid : ℤ) (msg : Record) (tm : Tm) (flag : Flag) :
    (¬ flag.Readable msg ∧ flag.field pid msg tm = .error .undefined) ∨
    (flag.Readable msg ∧ flag.field pid msg tm = .ok none ∧ flag.shortfall msg tm = 0) ∨
    (flag.Readable msg ∧ ∃ field, flag.field pid msg tm = .ok (some field)) := by
  have hline (h : msg.source.empty = true) : msg.source.line = 0 := by
    simpa [SourceLoc.empty] using h
  cases flag
  case sourceLocation =>
    rcases sourceField_cases msg.source msg.source.filename _ with
      ⟨hempty, h⟩ | ⟨hempty, hnull, h⟩ | ⟨s, hs, h⟩
    · exact Or.inr (Or.inl ⟨Or.inl hempty, h, if_pos (hline hempty).ge⟩)
    · exact Or.inl ⟨by simp [Flag.Readable, hempty, hnull], h⟩
    · exact Or.inr (Or.inr ⟨Or.inr (by simp [hs]), _, h⟩)
  case sourceLinenum =>
    rcases sourceField_cases msg.source (some [])
        fun _ => ⟨countDigitsInt msg.source.line, decimalInt msg.source.line⟩ with
      ⟨hempty, h⟩ | ⟨-, hnull, -⟩ | ⟨s, -, h⟩
    · exact Or.inr (Or.inl ⟨trivial, h, if_pos (hline hempty).ge⟩)
    · contradiction
    · exact Or.inr (Or.inr ⟨trivial, _, h⟩)
  case shortFilename | sourceFilename =>
    rcases sourceField_cases msg.source msg.source.filename _ with
      ⟨hempty, h⟩ | ⟨hempty, hnull, h⟩ | ⟨s, hs, h⟩
    · exact Or.inr (Or.inl ⟨Or.inl hempty, h, rfl⟩)
    · exact Or.inl ⟨by simp [Flag.Readable, hempty, hnull], h⟩
    · exact Or.inr (Or.inr ⟨Or.inr (by simp [hs]), _, h⟩)
  case sourceFuncname =>
    rcases sourceField_cases msg.source msg.source.funcname _ with
      ⟨hempty, h⟩ | ⟨hempty, hnull, h⟩ | ⟨s, hs, h⟩
    · exact Or.inr (Or.inl ⟨Or.inl hempty, h, rfl⟩)
    · exact Or.inl ⟨by simp [Flag.Readable, hempty, hnull], h⟩
    · exact Or.inr (Or.inr ⟨Or.inr (by simp [hs]), _, h⟩)
  all_goals
    exact Or.inr (Or.inr ⟨trivial, _, rfl⟩)

/-! ## The flag formatters -/

/-- `utc_minutes_offset`, where `tm` has the offset. -/
def utcMinutesOffset (tm : Tm) : ℤ := tm.gmtoff.tdiv 60

/-- What `z_formatter` writes for an offset. -/
def zField (totalMinutes : ℤ) : Field where
  fieldSize := 6
  text := (if totalMinutes < 0 then ascii "-" else ascii "+") ++ pad2 (totalMinutes.natAbs / 60) ++
    ascii ":" ++ pad2 (totalMinutes.natAbs % 60)

/-- What `elapsed_formatter` writes, for a unit of so many nanoseconds. -/
def elapsedField (units lastMessageTime : ℤ) (msg : Record) : Field :=
  let delta := max (msg.time - lastMessageTime) 0
  let deltaCount := (delta.tdiv units % 2 ^ 64).toNat
  ⟨decimalLength deltaCount, decimal deltaCount⟩

/-- A flag formatter with its state: `z_formatter` caches an offset,
`elapsed_formatter` keeps the time of the last message, and `full_formatter`
caches the date. -/
inductive FlagFormatter
  | field (flag : Flag) (padinfo : PaddingInfo)
  | z (padinfo : PaddingInfo) (lastUpdate offsetMinutes : ℤ)
  | elapsed (units : ℤ) (padinfo : PaddingInfo) (lastMessageTime : ℤ)
  | ch (ch : UInt8)
  | aggregate (str : Bytes)
  | colorStart
  | colorStop
  | full (cacheTimestamp : ℤ) (cachedDatetime : Bytes)

/-- The date part of `full_formatter`. -/
def fullDatetime (tm : Tm) : Bytes :=
  ascii "[" ++ decimalInt (tm.year + 1900) ++ ascii "-" ++ pad2 (tm.mon + 1) ++ ascii "-" ++
    pad2 tm.mday ++ ascii " " ++ pad2 tm.hour ++ ascii ":" ++ pad2 tm.min ++ ascii ":" ++
    pad2 tm.sec ++ ascii "."

/-- What `full_formatter` writes about the source location, with `name` for
`basename`. -/
def fullSourceBy (name : Bytes → Bytes) (msg : Record) : Except Failure Bytes :=
  if msg.source.empty then .ok []
  else
    match msg.source.filename with
    | none => .error .undefined
    | some filename =>
        .ok (ascii "[" ++ name filename ++ ascii ":" ++ decimalInt msg.source.line ++
          ascii "] ")

def fullSource (msg : Record) : Except Failure Bytes := fullSourceBy basename msg

/-- `full_formatter::format`, with its date part. -/
def fullFormatBy (name : Bytes → Bytes) (datetime : Bytes) (msg : Record) (t : Target) :
    Except Failure Target := do
  let millis := (timeFraction 1000000 msg.time % 2 ^ 32).toNat
  let t := t.append (datetime ++ pad3 millis ++ ascii "] ")
  let t :=
    if 0 < msg.loggerName.length then t.append (ascii "[" ++ msg.loggerName ++ ascii "] ") else t
  let t := t.append (ascii "[")
  -- The level name is wrapped with the colour.
  let t := { t with colorRangeStart := t.dest.length }
  let t := t.append msg.level.toStringView
  let t := { t with colorRangeEnd := t.dest.length }
  let t := t.append (ascii "] ")
  let source ← fullSourceBy name msg
  return t.append (source ++ msg.payload)

def fullFormat (datetime : Bytes) (msg : Record) (t : Target) : Except Failure Target :=
  fullFormatBy basename datetime msg t

namespace FlagFormatter

/-- Write a field, if there is one, to the buffer. -/
def writeField (padinfo : PaddingInfo) (field : Option Field) (t : Target) :
    Except Failure Target :=
  match field with
  | none => .ok t
  | some field => (field.write padinfo t.dest).map fun dest => { t with dest }

/-- `format`, with `name` for `basename`.  The formatter comes back with its new
state. -/
def formatBy (name : Bytes → Bytes) (pid : ℤ) (msg : Record) (tm : Tm) (t : Target) :
    FlagFormatter → Except Failure (FlagFormatter × Target)
  | field flag padinfo => do
      let made ← flag.fieldBy name pid msg tm
      return (field flag padinfo, ← writeField padinfo made t)
  | z padinfo lastUpdate offsetMinutes => do
      -- The offset is refreshed every 10 seconds.
      let (lastUpdate, offsetMinutes) :=
        if msg.time - lastUpdate ≥ 10 * nanos then (msg.time, utcMinutesOffset tm)
        else (lastUpdate, offsetMinutes)
      return (z padinfo lastUpdate offsetMinutes,
        ← writeField padinfo (zField offsetMinutes) t)
  | elapsed units padinfo lastMessageTime => do
      return (elapsed units padinfo msg.time,
        ← writeField padinfo (elapsedField units lastMessageTime msg) t)
  | ch c => .ok (ch c, t.append [c])
  | aggregate str => .ok (aggregate str, t.append str)
  | colorStart => .ok (colorStart, { t with colorRangeStart := t.dest.length })
  | colorStop => .ok (colorStop, { t with colorRangeEnd := t.dest.length })
  | full cacheTimestamp cachedDatetime => do
      let secs := msg.time.tdiv nanos
      let (cacheTimestamp, cachedDatetime) :=
        if cacheTimestamp ≠ secs ∨ cachedDatetime.length = 0 then (secs, fullDatetime tm)
        else (cacheTimestamp, cachedDatetime)
      return (full cacheTimestamp cachedDatetime, ← fullFormatBy name cachedDatetime msg t)

def format (pid : ℤ) (msg : Record) (tm : Tm) (t : Target) (f : FlagFormatter) :
    Except Failure (FlagFormatter × Target) :=
  f.formatBy basename pid msg tm t

end FlagFormatter

end Structlog
