import Structlog.CircularQ
import Structlog.PatternFlags

/-!
# `pattern_formatter`

A pattern is compiled into flag formatters, which write one after the other.
-/

namespace Structlog

open Lib

/-! ## Compiling a pattern -/

def isDigit (c : UInt8) : Bool := 48 ≤ c ∧ c ≤ 57

/-- The digits of a width, in `size_t`. -/
def handleWidth (width : ℕ) : Bytes → ℕ × Bytes
  | [] => (width, [])
  | c :: rest =>
      if isDigit c then handleWidth ((width * 10 + (c.toNat - 48)) % sizeT) rest
      else (width, c :: rest)

/-- The padding for a width, a side and what follows the width. -/
def handleTruncate (side : PadSide) (width : ℕ) (rest : Bytes) : PaddingInfo × Bytes :=
  let padding (truncate : Bool) : PaddingInfo :=
    ⟨min width maxWidth, side, truncate, true, Nat.min_le_right ..⟩
  match rest with
  | [] => (padding false, [])
  | c :: rest' => if c = charByte '!' then (padding true, rest') else (padding false, c :: rest')

/-- `handle_padspec_`: the padding, and what is left of the pattern. -/
def handlePadspec (pattern : Bytes) : PaddingInfo × Bytes :=
  let afterSide (side : PadSide) (rest : Bytes) : PaddingInfo × Bytes :=
    match rest with
    | [] => ({}, [])
    | c :: rest' =>
        if isDigit c then
          let (width, rest'') := handleWidth (c.toNat - 48) rest'
          handleTruncate side width rest''
        else ({}, rest)
  match pattern with
  | [] => ({}, [])
  | c :: rest =>
      if c = charByte '-' then afterSide .right rest
      else if c = charByte '=' then afterSide .center rest
      else afterSide .left pattern

/-- `handle_flag_`, without custom flags; `now` is the clock when the formatters
are made. -/
def handleFlag (now : ℤ) (flag : UInt8) (padding : PaddingInfo) : List FlagFormatter :=
  match Char.ofNat flag.toNat with
  | '+' => [.full 0 []]
  | 'n' => [.field .n padding]
  | 'l' => [.field .l padding]
  | 'L' => [.field .L padding]
  | 't' => [.field .t padding]
  | 'v' => [.field .v padding]
  | 'a' => [.field .a padding]
  | 'A' => [.field .A padding]
  | 'b' | 'h' => [.field .b padding]
  | 'B' => [.field .B padding]
  | 'c' => [.field .c padding]
  | 'C' => [.field .C padding]
  | 'Y' => [.field .Y padding]
  | 'D' | 'x' => [.field .D padding]
  | 'm' => [.field .m padding]
  | 'd' => [.field .d padding]
  | 'H' => [.field .H padding]
  | 'I' => [.field .I padding]
  | 'M' => [.field .M padding]
  | 'S' => [.field .S padding]
  | 'e' => [.field .e padding]
  | 'f' => [.field .f padding]
  | 'F' => [.field .F padding]
  | 'E' => [.field .E padding]
  | 'p' => [.field .p padding]
  | 'r' => [.field .r padding]
  | 'R' => [.field .R padding]
  | 'T' | 'X' => [.field .T padding]
  | 'z' => [.z padding 0 0]
  | 'P' => [.field .P padding]
  | '^' => [.colorStart]
  | '$' => [.colorStop]
  | '@' => [.field .sourceLocation padding]
  | 's' => [.field .shortFilename padding]
  | 'g' => [.field .sourceFilename padding]
  | '#' => [.field .sourceLinenum padding]
  | '!' => [.field .sourceFuncname padding]
  | '%' => [.ch (charByte '%')]
  | 'u' => [.elapsed 1 padding now]
  | 'i' => [.elapsed 1000 padding now]
  | 'o' => [.elapsed 1000000 padding now]
  | 'O' => [.elapsed 1000000000 padding now]
  | _ =>
      if padding.truncate then
        -- The '!' before was the flag of the function name.
        [.field .sourceFuncname { padding with truncate := false }, .aggregate [flag]]
      else [.aggregate [charByte '%', flag]]

/-- The characters collected so far, as a formatter. -/
def userFormatter (userChars : Option Bytes) : List FlagFormatter :=
  userChars.toList.map .aggregate

/-- The loop in `compile_pattern_`; a round takes at least one character. -/
def compileLoop (now : ℤ) : ℕ → Option Bytes → Bytes → List FlagFormatter
  | 0, userChars, _ => userFormatter userChars
  | _ + 1, userChars, [] => userFormatter userChars
  | rounds + 1, userChars, c :: rest =>
      if c = charByte '%' then
        let (padding, rest') := handlePadspec rest
        match rest' with
        | [] => userFormatter userChars
        | flag :: rest'' =>
            userFormatter userChars ++ handleFlag now flag padding ++
              compileLoop now rounds none rest''
      else compileLoop now rounds (some (userChars.getD [] ++ [c])) rest

/-- `compile_pattern_`. -/
def compilePattern (now : ℤ) (pattern : Bytes) : List FlagFormatter :=
  compileLoop now pattern.length none pattern

/-! ## The formatter -/

inductive PatternTimeType
  | local
  | utc
  deriving DecidableEq, Repr

/-- What a formatter finds outside: the process, and the zone of `localtime`. -/
structure Environment where
  pid : ℤ
  zone : Zone

/-- `os::gmtime`. -/
def gmtime (seconds : ℤ) : Tm := (Zone.constant 0).localtime seconds

structure PatternFormatter where
  pattern : Bytes
  eol : Bytes
  patternTimeType : PatternTimeType
  cachedTm : Tm
  lastLogSecs : ℤ
  formatters : List FlagFormatter

namespace PatternFormatter

/-- `pattern_formatter(pattern, time_type, eol)`. -/
def new (now : ℤ) (pattern : Bytes) (timeType : PatternTimeType) (eol : Bytes) :
    PatternFormatter where
  pattern
  eol
  patternTimeType := timeType
  cachedTm := ⟨0, 0, 0, 0, 0, 0, 0, 0, 0⟩
  lastLogSecs := 0
  formatters := compilePattern now pattern

/-- `get_time_`. -/
def getTime (env : Environment) (msg : Record) (pf : PatternFormatter) : Tm :=
  match pf.patternTimeType with
  | .local => env.zone.localtime (toTimeT msg.time)
  | .utc => gmtime (toTimeT msg.time)

/-- The formatter with `cached_tm_` as it is for a message. -/
def refresh (env : Environment) (msg : Record) (pf : PatternFormatter) : PatternFormatter :=
  let secs := msg.time.tdiv nanos
  if secs ≠ pf.lastLogSecs then { pf with cachedTm := pf.getTime env msg, lastLogSecs := secs }
  else pf

/-- The loop over the formatters, with `name` for `basename`. -/
def formatAllBy (name : Bytes → Bytes) (pid : ℤ) (msg : Record) (tm : Tm) :
    List FlagFormatter → Target → Except Failure (List FlagFormatter × Target)
  | [], t => .ok ([], t)
  | f :: rest, t => do
      let (f, t) ← f.formatBy name pid msg tm t
      let (rest, t) ← formatAllBy name pid msg tm rest t
      return (f :: rest, t)

def formatAll (pid : ℤ) (msg : Record) (tm : Tm) (formatters : List FlagFormatter) (t : Target) :
    Except Failure (List FlagFormatter × Target) :=
  formatAllBy basename pid msg tm formatters t

/-- `format`, with `name` for `basename`. -/
def formatBy (name : Bytes → Bytes) (env : Environment) (msg : Record) (t : Target)
    (pf : PatternFormatter) : Except Failure (PatternFormatter × Target) := do
  let pf := pf.refresh env msg
  let (formatters, t) ← formatAllBy name env.pid msg pf.cachedTm pf.formatters t
  return ({ pf with formatters }, t.append pf.eol)

/-- `format`. -/
def format (env : Environment) (msg : Record) (t : Target) (pf : PatternFormatter) :
    Except Failure (PatternFormatter × Target) :=
  pf.formatBy basename env msg t

end PatternFormatter

end Structlog
