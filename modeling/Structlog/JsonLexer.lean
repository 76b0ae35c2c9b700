import Structlog.Json

/-!
# Reading tokens

`Lexer` is the state of the class `lexer` and `scan` its function of that name.
The functions take what is constant in the class as `LexerConfig`: whether comments
are ignored, the decimal point of the locale, and `strtod`, which gives `none` for a
number that no finite `double` is near.

A loop has as many turns as bytes are left to read, and one more.  Every turn that goes on
has read one, so that what a loop answers without a turn is never its result
(`Lexer.LoopsEnd`).
-/

namespace Structlog.Json

open Lib

/-- `token_type`. -/
inductive TokenType
  | uninitialized
  | literalTrue
  | literalFalse
  | literalNull
  | valueString
  | valueUnsigned
  | valueInteger
  | valueFloat
  | beginArray
  | beginObject
  | endArray
  | endObject
  | nameSeparator
  | valueSeparator
  | parseError
  | endOfInput
  | literalOrValue
  deriving DecidableEq, Repr

/-- `token_type_name`. -/
def TokenType.name : TokenType → Bytes
  | uninitialized => ascii "<uninitialized>"
  | literalTrue => ascii "true literal"
  | literalFalse => ascii "false literal"
  | literalNull => ascii "null literal"
  | valueString => ascii "string literal"
  | valueUnsigned | valueInteger | valueFloat => ascii "number literal"
  | beginArray => ascii "'['"
  | beginObject => ascii "'\x7b'"
  | endArray => ascii "']'"
  | endObject => ascii "'\x7d'"
  | nameSeparator => ascii "':'"
  | valueSeparator => ascii "','"
  | parseError => ascii "<parse error>"
  | endOfInput => ascii "end of input"
  | literalOrValue => ascii "'[', '\x7b', or a literal"

/-- `position_t`. -/
structure Position where
  charsReadTotal : ℕ
  charsReadCurrentLine : ℕ
  linesRead : ℕ

/-- The counters behind `get`. -/
def Position.afterGet (position : Position) (current : Option UInt8) : Position :=
  if current = some 0x0A then ⟨position.charsReadTotal + 1, 0, position.linesRead + 1⟩
  else ⟨position.charsReadTotal + 1, position.charsReadCurrentLine + 1, position.linesRead⟩

/-- The counters behind `unget`: a newline that is given back leaves the column at `0`. -/
def Position.afterUnget (position : Position) : Position :=
  if position.charsReadCurrentLine = 0 then
    ⟨position.charsReadTotal - 1, 0, position.linesRead - 1⟩
  else ⟨position.charsReadTotal - 1, position.charsReadCurrentLine - 1, position.linesRead⟩

structure LexerConfig where
  ignoreComments : Bool
  decimalPointChar : UInt8
  strtod : Bytes → Option FloatText

/-- The members of `lexer` that change; `current` is `none` at the end of the input. -/
structure Lexer where
  ia : Bytes
  current : Option UInt8
  nextUnget : Bool
  position : Position
  tokenString : Bytes
  tokenBuffer : Bytes
  errorMessage : Bytes
  valueInteger : ℤ
  valueUnsigned : ℕ
  valueFloat : Option FloatText

namespace Lexer

/-- A lexer before its first byte. -/
def new (input : Bytes) : Lexer where
  ia := input
  current := none
  nextUnget := false
  position := ⟨0, 0, 0⟩
  tokenString := []
  tokenBuffer := []
  errorMessage := []
  valueInteger := 0
  valueUnsigned := 0
  valueFloat := none

/-- What `get` is going to give. -/
def pending (l : Lexer) : Bytes := (if l.nextUnget then l.current.toList else []) ++ l.ia

/-- The turns that a loop is given. -/
def turns (l : Lexer) : ℕ := l.pending.length + 1

/-! ## Input -/

def get (l : Lexer) : Lexer :=
  let current := if l.nextUnget then l.current else l.ia.head?
  { l with
    ia := if l.nextUnget then l.ia else l.ia.tail
    current
    nextUnget := false
    position := l.position.afterGet current
    tokenString := l.tokenString ++ current.toList }

def unget (l : Lexer) : Lexer :=
  { l with
    nextUnget := true
    position := l.position.afterUnget
    tokenString := if l.current.isSome then l.tokenString.dropLast else l.tokenString }

def reset (l : Lexer) : Lexer := { l with tokenBuffer := [], tokenString := l.current.toList }

def add (c : UInt8) (l : Lexer) : Lexer := { l with tokenBuffer := l.tokenBuffer ++ [c] }

/-- Setting `error_message`. -/
def fail (l : Lexer) (message : Bytes) : Lexer := { l with errorMessage := message }

/-- `get_token_string`. -/
def getTokenString (l : Lexer) : Bytes :=
  l.tokenString.flatMap fun c =>
    if c ≤ 0x1F then ascii "<U+00" ++ hexByte c ++ ascii ">" else [c]

/-! ## Strings -/

/-- The loop of `get_codepoint` over the factors. -/
def getCodepointFrom : List ℕ → ℕ → Lexer → Option ℕ × Lexer
  | [], codepoint, l => (some codepoint, l)
  | factor :: rest, codepoint, l =>
      let l := l.get
      match l.current with
      | none => (none, l)
      | some c =>
          if 0x30 ≤ c ∧ c ≤ 0x39 then
            getCodepointFrom rest (codepoint + (c.toNat - 0x30) <<< factor) l
          else if 0x41 ≤ c ∧ c ≤ 0x46 then
            getCodepointFrom rest (codepoint + (c.toNat - 0x37) <<< factor) l
          else if 0x61 ≤ c ∧ c ≤ 0x66 then
            getCodepointFrom rest (codepoint + (c.toNat - 0x57) <<< factor) l
          else (none, l)

/-- `get_codepoint`, with `none` for `-1`. -/
def getCodepoint (l : Lexer) : Option ℕ × Lexer := getCodepointFrom [12, 8, 4, 0] 0 l

/-- The bytes that are added for a code point. -/
def codepointBytes (codepoint : ℕ) : Bytes :=
  if codepoint < 0x80 then [UInt8.ofNat codepoint]
  else if codepoint ≤ 0x7FF then
    [UInt8.ofNat (0xC0 ||| codepoint >>> 6), UInt8.ofNat (0x80 ||| codepoint &&& 0x3F)]
  else if codepoint ≤ 0xFFFF then
    [UInt8.ofNat (0xE0 ||| codepoint >>> 12), UInt8.ofNat (0x80 ||| codepoint >>> 6 &&& 0x3F),
      UInt8.ofNat (0x80 ||| codepoint &&& 0x3F)]
  else
    [UInt8.ofNat (0xF0 ||| codepoint >>> 18), UInt8.ofNat (0x80 ||| codepoint >>> 12 &&& 0x3F),
      UInt8.ofNat (0x80 ||| codepoint >>> 6 &&& 0x3F), UInt8.ofNat (0x80 ||| codepoint &&& 0x3F)]

def addAll (bytes : Bytes) (l : Lexer) : Lexer := { l with tokenBuffer := l.tokenBuffer ++ bytes }

def noHexDigits : Bytes := ascii "invalid string: '\\u' must be followed by 4 hex digits"

def noLowSurrogate : Bytes :=
  ascii "invalid string: surrogate U+D800..U+DBFF must be followed by U+DC00..U+DFFF"

def noHighSurrogate : Bytes :=
  ascii "invalid string: surrogate U+DC00..U+DFFF must follow U+D800..U+DBFF"

/-- What follows the first half of a surrogate pair. -/
def scanLowSurrogate (codepoint1 : ℕ) (l : Lexer) : Bool × Lexer :=
  let l := l.get
  if l.current = some 0x5C then
    let l := l.get
    if l.current = some 0x75 then
      match getCodepoint l with
      | (none, l) => (false, l.fail noHexDigits)
      | (some codepoint2, l) =>
          -- takes off both surrogate bases and adds `0x10000`, in one subtraction
          if 0xDC00 ≤ codepoint2 ∧ codepoint2 ≤ 0xDFFF then
            (true, l.addAll (codepointBytes (codepoint1 <<< 10 + codepoint2 - 0x35FDC00)))
          else (false, l.fail noLowSurrogate)
    else (false, l.fail noLowSurrogate)
  else (false, l.fail noLowSurrogate)

/-- An escape behind `\u`. -/
def scanUnicode (l : Lexer) : Bool × Lexer :=
  match getCodepoint l with
  | (none, l) => (false, l.fail noHexDigits)
  | (some codepoint1, l) =>
      if 0xD800 ≤ codepoint1 ∧ codepoint1 ≤ 0xDBFF then scanLowSurrogate codepoint1 l
      else if 0xDC00 ≤ codepoint1 ∧ codepoint1 ≤ 0xDFFF then (false, l.fail noHighSurrogate)
      else (true, l.addAll (codepointBytes codepoint1))

/-- An escape behind its backslash. -/
def scanEscape (l : Lexer) : Bool × Lexer :=
  let l := l.get
  if l.current = some 0x22 then (true, l.add 0x22)
  else if l.current = some 0x5C then (true, l.add 0x5C)
  else if l.current = some 0x2F then (true, l.add 0x2F)
  else if l.current = some 0x62 then (true, l.add 0x08)
  else if l.current = some 0x66 then (true, l.add 0x0C)
  else if l.current = some 0x6E then (true, l.add 0x0A)
  else if l.current = some 0x72 then (true, l.add 0x0D)
  else if l.current = some 0x74 then (true, l.add 0x09)
  else if l.current = some 0x75 then scanUnicode l
  else (false, l.fail (ascii "invalid string: forbidden character after backslash"))

/-- The loop of `next_byte_in_range`. -/
def nextBytesInRange : List (UInt8 × UInt8) → Lexer → Bool × Lexer
  | [], l => (true, l)
  | (low, high) :: ranges, l =>
      let l := l.get
      match l.current with
      | none => (false, l.fail (ascii "invalid string: ill-formed UTF-8 byte"))
      | some c =>
          if low ≤ c ∧ c ≤ high then nextBytesInRange ranges (l.add c)
          else (false, l.fail (ascii "invalid string: ill-formed UTF-8 byte"))

/-- `next_byte_in_range`, where `c` is the current byte. -/
def nextByteInRange (c : UInt8) (ranges : List (UInt8 × UInt8)) (l : Lexer) : Bool × Lexer :=
  nextBytesInRange ranges (l.add c)

def controlNames : List String :=
  ["NUL", "SOH", "STX", "ETX", "EOT", "ENQ", "ACK", "BEL", "BS", "HT", "LF", "VT", "FF", "CR",
    "SO", "SI", "DLE", "DC1", "DC2", "DC3", "DC4", "NAK", "SYN", "ETB", "CAN", "EM", "SUB", "ESC",
    "FS", "GS", "RS", "US"]

/-- The message for a control character. -/
def controlMessage (c : UInt8) : Bytes :=
  ascii "invalid string: control character U+00" ++ hexByte c ++ ascii " (" ++
    ascii (controlNames.getD c.toNat "") ++ ascii ") must be escaped to \\u00" ++ hexByte c ++
    if c = 0x08 then ascii " or \\b"
    else if c = 0x09 then ascii " or \\t"
    else if c = 0x0A then ascii " or \\n"
    else if c = 0x0C then ascii " or \\f"
    else if c = 0x0D then ascii " or \\r"
    else []

/-- A byte of a string that is neither a quote nor a backslash. -/
def scanPlain (c : UInt8) (l : Lexer) : Bool × Lexer :=
  if c ≤ 0x1F then (false, l.fail (controlMessage c))
  else if c ≤ 0x7F then (true, l.add c)
  else if 0xC2 ≤ c ∧ c ≤ 0xDF then nextByteInRange c [(0x80, 0xBF)] l
  else if c = 0xE0 then nextByteInRange c [(0xA0, 0xBF), (0x80, 0xBF)] l
  else if 0xE1 ≤ c ∧ c ≤ 0xEC ∨ 0xEE ≤ c ∧ c ≤ 0xEF then
    nextByteInRange c [(0x80, 0xBF), (0x80, 0xBF)] l
  else if c = 0xED then nextByteInRange c [(0x80, 0x9F), (0x80, 0xBF)] l
  else if c = 0xF0 then nextByteInRange c [(0x90, 0xBF), (0x80, 0xBF), (0x80, 0xBF)] l
  else if 0xF1 ≤ c ∧ c ≤ 0xF3 then
    nextByteInRange c [(0x80, 0xBF), (0x80, 0xBF), (0x80, 0xBF)] l
  else if c = 0xF4 then nextByteInRange c [(0x80, 0x8F), (0x80, 0xBF), (0x80, 0xBF)] l
  else (false, l.fail (ascii "invalid string: ill-formed UTF-8 byte"))

/-- The loop of `scan_string`. -/
def scanStringLoop : ℕ → Lexer → TokenType × Lexer
  | 0, l => (.parseError, l)
  | n + 1, l =>
      let l := l.get
      match l.current with
      | none => (.parseError, l.fail (ascii "invalid string: missing closing quote"))
      | some c =>
          if c = 0x22 then (.valueString, l)
          else
            let (scanned, l) := if c = 0x5C then scanEscape l else scanPlain c l
            if scanned then scanStringLoop n l else (.parseError, l)

/-- `scan_string`. -/
def scanString (l : Lexer) : TokenType × Lexer := scanStringLoop l.turns l.reset

/-! ## Numbers -/

/-- The labels of `scan_number`. -/
inductive NumberLabel
  | minus
  | zero
  | any1
  | decimal1
  | decimal2
  | exponent
  | sign
  | any2
  deriving DecidableEq, Repr

/-- From `scan_number_done` on. -/
def scanNumberDone (config : LexerConfig) (numberType : TokenType) (l : Lexer) :
    TokenType × Lexer :=
  let l := l.unget
  let x : ℕ := readDecimal l.tokenBuffer
  let y : ℤ := -(readDecimal l.tokenBuffer.tail : ℤ)
  -- `strtoull` and `strtoll` fail with `ERANGE`, and then the number is read as a `double`
  if numberType = .valueUnsigned ∧ x ≤ 18446744073709551615 then
    (.valueUnsigned, { l with valueUnsigned := x })
  else if numberType = .valueInteger ∧ -9223372036854775808 ≤ y then
    (.valueInteger, { l with valueInteger := y })
  else (.valueFloat, { l with valueFloat := config.strtod l.tokenBuffer })

/-- `scan_number` from a label on; a `goto` is a call. -/
def scanNumberAt (config : LexerConfig) :
    ℕ → NumberLabel → TokenType → Lexer → TokenType × Lexer
  | 0, _, _, l => (.parseError, l)
  | n + 1, label, numberType, l =>
      let l := l.get
      match l.current with
      | none =>
          match label with
          | .minus =>
              (.parseError, l.fail (ascii "invalid number; expected digit after '-'"))
          | .decimal1 =>
              (.parseError, l.fail (ascii "invalid number; expected digit after '.'"))
          | .exponent =>
              (.parseError,
                l.fail (ascii "invalid number; expected '+', '-', or digit after exponent"))
          | .sign =>
              (.parseError, l.fail (ascii "invalid number; expected digit after exponent sign"))
          | .zero | .any1 | .decimal2 | .any2 => scanNumberDone config numberType l
      | some c =>
          match label with
          | .minus =>
              if c = 0x30 then scanNumberAt config n .zero .valueInteger (l.add c)
              else if 0x31 ≤ c ∧ c ≤ 0x39 then scanNumberAt config n .any1 .valueInteger (l.add c)
              else (.parseError, l.fail (ascii "invalid number; expected digit after '-'"))
          | .zero =>
              if c = 0x2E then
                scanNumberAt config n .decimal1 numberType (l.add config.decimalPointChar)
              else if c = 0x65 ∨ c = 0x45 then scanNumberAt config n .exponent numberType (l.add c)
              else scanNumberDone config numberType l
          | .any1 =>
              if 0x30 ≤ c ∧ c ≤ 0x39 then scanNumberAt config n .any1 numberType (l.add c)
              else if c = 0x2E then
                scanNumberAt config n .decimal1 numberType (l.add config.decimalPointChar)
              else if c = 0x65 ∨ c = 0x45 then scanNumberAt config n .exponent numberType (l.add c)
              else scanNumberDone config numberType l
          | .decimal1 =>
              if 0x30 ≤ c ∧ c ≤ 0x39 then scanNumberAt config n .decimal2 .valueFloat (l.add c)
              else (.parseError, l.fail (ascii "invalid number; expected digit after '.'"))
          | .decimal2 =>
              if 0x30 ≤ c ∧ c ≤ 0x39 then scanNumberAt config n .decimal2 numberType (l.add c)
              else if c = 0x65 ∨ c = 0x45 then scanNumberAt config n .exponent numberType (l.add c)
              else scanNumberDone config numberType l
          | .exponent =>
              if c = 0x2B ∨ c = 0x2D then scanNumberAt config n .sign .valueFloat (l.add c)
              else if 0x30 ≤ c ∧ c ≤ 0x39 then scanNumberAt config n .any2 .valueFloat (l.add c)
              else
                (.parseError,
                  l.fail (ascii "invalid number; expected '+', '-', or digit after exponent"))
          | .sign =>
              if 0x30 ≤ c ∧ c ≤ 0x39 then scanNumberAt config n .any2 numberType (l.add c)
              else
                (.parseError, l.fail (ascii "invalid number; expected digit after exponent sign"))
          | .any2 =>
              if 0x30 ≤ c ∧ c ≤ 0x39 then scanNumberAt config n .any2 numberType (l.add c)
              else scanNumberDone config numberType l

/-- `scan_number`, where `c` is the current byte. -/
def scanNumber (config : LexerConfig) (c : UInt8) (l : Lexer) : TokenType × Lexer :=
  let l := l.reset
  if c = 0x2D then scanNumberAt config l.turns .minus .valueUnsigned (l.add c)
  else if c = 0x30 then scanNumberAt config l.turns .zero .valueUnsigned (l.add c)
  else scanNumberAt config l.turns .any1 .valueUnsigned (l.add c)

/-! ## The scanner -/

/-- `scan_literal`, behind the first letter. -/
def scanLiteral (literalText : Bytes) (returnType : TokenType) : Lexer → TokenType × Lexer :=
  match literalText with
  | [] => fun l => (returnType, l)
  | letter :: rest => fun l =>
      let l := l.get
      if l.current = some letter then scanLiteral rest returnType l
      else (.parseError, l.fail (ascii "invalid literal"))

/-- The loop of a `//` comment. -/
def scanLineComment : ℕ → Lexer → Lexer
  | 0, l => l
  | n + 1, l =>
      let l := l.get
      if l.current = none ∨ l.current = some 0x0A ∨ l.current = some 0x0D ∨ l.current = some 0 then
        l
      else scanLineComment n l

/-- The loop of a comment between `/*` and `*/`. -/
def scanBlockComment : ℕ → Lexer → Bool × Lexer
  | 0, l => (false, l)
  | n + 1, l =>
      let l := l.get
      if l.current = none ∨ l.current = some 0 then
        (false, l.fail (ascii "invalid comment; missing closing '*/'"))
      else if l.current = some 0x2A then
        let l := l.get
        -- the byte may be the star that ends the comment
        if l.current = some 0x2F then (true, l) else scanBlockComment n l.unget
      else scanBlockComment n l

/-- `scan_comment`. -/
def scanComment (l : Lexer) : Bool × Lexer :=
  let l := l.get
  if l.current = some 0x2F then (true, scanLineComment l.turns l)
  else if l.current = some 0x2A then scanBlockComment l.turns l
  else (false, l.fail (ascii "invalid comment; expecting '/' or '*' after '/'"))

/-- `skip_bom`. -/
def skipBom (l : Lexer) : Bool × Lexer :=
  let l := l.get
  if l.current = some 0xEF then
    let l := l.get
    if l.current = some 0xBB then
      let l := l.get
      (l.current = some 0xBF, l)
    else (false, l)
  else (true, l.unget)

/-- The loop of `skip_whitespace`. -/
def skipWhitespaceLoop : ℕ → Lexer → Lexer
  | 0, l => l
  | n + 1, l =>
      let l := l.get
      if l.current = some 0x20 ∨ l.current = some 0x09 ∨ l.current = some 0x0A ∨
          l.current = some 0x0D then
        skipWhitespaceLoop n l
      else l

/-- `skip_whitespace`. -/
def skipWhitespace (l : Lexer) : Lexer := skipWhitespaceLoop l.turns l

/-- The loop of `scan` over comments. -/
def skipComments (config : LexerConfig) : ℕ → Lexer → Bool × Lexer
  | 0, l => (true, l)
  | n + 1, l =>
      if config.ignoreComments = true ∧ l.current = some 0x2F then
        let (scanned, l) := scanComment l
        if scanned then skipComments config n l.skipWhitespace else (false, l)
      else (true, l)

/-- The switch of `scan`. -/
def scanToken (config : LexerConfig) (l : Lexer) : TokenType × Lexer :=
  match l.current with
  | none => (.endOfInput, l)
  | some c =>
      if c = 0x5B then (.beginArray, l)
      else if c = 0x5D then (.endArray, l)
      else if c = 0x7B then (.beginObject, l)
      else if c = 0x7D then (.endObject, l)
      else if c = 0x3A then (.nameSeparator, l)
      else if c = 0x2C then (.valueSeparator, l)
      else if c = 0x74 then scanLiteral (ascii "rue") .literalTrue l
      else if c = 0x66 then scanLiteral (ascii "alse") .literalFalse l
      else if c = 0x6E then scanLiteral (ascii "ull") .literalNull l
      else if c = 0x22 then scanString l
      else if c = 0x2D ∨ 0x30 ≤ c ∧ c ≤ 0x39 then scanNumber config c l
      -- also in the middle of the input
      else if c = 0 then (.endOfInput, l)
      else (.parseError, l.fail (ascii "invalid literal"))

/-- `scan`. -/
def scan (config : LexerConfig) (l : Lexer) : TokenType × Lexer :=
  let (skipped, l) := if l.position.charsReadTotal = 0 then skipBom l else (true, l)
  if skipped then
    let l := l.skipWhitespace
    let (skipped, l) := skipComments config l.turns l
    -- `scan_comment` has set the message
    if skipped then scanToken config l else (.parseError, l)
  else (.parseError, l.fail (ascii "invalid BOM; must be 0xEF 0xBB 0xBF if given"))

end Lexer

end Structlog.Json
