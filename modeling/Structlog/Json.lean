import Structlog.Common
import Structlog.Lib.OrdMap
import Structlog.Lib.Utf8

/-!
# The JSON values of a record

`Json` follows `nlohmann::json`, `items` is its iteration over members and
`setMember` is `operator[]` on the left of an assignment.  `dump` is `dump()`
with the default arguments: no indentation, no `ensure_ascii`, and the strict
error handler, so that a string which is not UTF-8 makes it throw.

A floating-point value is kept as the text it is printed as, which is the only
thing about it that is ever looked at.
-/

namespace Structlog

open Lib

/-- The printed form of a `double`: printable ASCII. -/
structure FloatText where
  text : Bytes
  printable : ∀ b ∈ text, 0x20 ≤ b ∧ b ≤ 0x7E

inductive Json
  | null
  | boolean (b : Bool)
  | integer (n : ℤ)
  | float (x : FloatText)
  | string (s : Bytes)
  | array (elements : List Json)
  | object (members : List (Bytes × Json))
  | binary (bytes : Bytes) (subtype : Option ℕ)
  | discarded

namespace Json

/-- The name nlohmann gives the type of a value in its messages. -/
def typeName : Json → Bytes
  | null => ascii "null"
  | boolean _ => ascii "boolean"
  | string _ => ascii "string"
  | array _ => ascii "array"
  | object _ => ascii "object"
  | binary _ _ => ascii "binary"
  | discarded => ascii "discarded"
  | integer _ => ascii "number"
  | float _ => ascii "number"

/-- `items()`: the members of an object, the elements of an array under their
indices, nothing for null, and any other value under the empty key. -/
def items : Json → List (Bytes × Json)
  | null => []
  | object members => members
  | array elements => elements.mapIdx fun i element => (decimal i, element)
  | value => [([], value)]

/-- `value[key] = member`: null becomes an object first. -/
def setMember (key : Bytes) (member : Json) : Json → Except Thrown Json
  | null => .ok (object [(key, member)])
  | object members => .ok (object (insertEntry key member members))
  | value => .error (.std (ascii
      "[json.exception.type_error.305] cannot use operator[] with a string argument with " ++
      value.typeName))

/-! ## Writing strings -/

/-- `decode`'s class of a byte: the first 256 entries of `utf8d`. -/
def utf8Class (byte : UInt8) : ℕ :=
  if byte ≤ 0x7F then 0
  else if byte ≤ 0x8F then 1
  else if byte ≤ 0x9F then 9
  else if byte ≤ 0xBF then 7
  else if byte ≤ 0xC1 then 8
  else if byte ≤ 0xDF then 2
  else if byte ≤ 0xE0 then 10
  else if byte ≤ 0xEC then 3
  else if byte ≤ 0xED then 4
  else if byte ≤ 0xEF then 3
  else if byte ≤ 0xF0 then 11
  else if byte ≤ 0xF3 then 6
  else if byte ≤ 0xF4 then 5
  else 8

/-- `decode`'s transitions: the entries of `utf8d` from 256 on, a row of 16 a
state.  State 0 accepts and state 1 rejects. -/
def utf8Rows : List (List ℕ) :=
  [[0, 1, 2, 3, 5, 8, 7, 1, 1, 1, 4, 6, 1, 1, 1, 1],
   [1, 1, 1, 1, 1, 1, 1, 1, 1, 1, 1, 1, 1, 1, 1, 1],
   [1, 0, 1, 1, 1, 1, 1, 0, 1, 0, 1, 1, 1, 1, 1, 1],
   [1, 2, 1, 1, 1, 1, 1, 2, 1, 2, 1, 1, 1, 1, 1, 1],
   [1, 1, 1, 1, 1, 1, 1, 2, 1, 1, 1, 1, 1, 1, 1, 1],
   [1, 2, 1, 1, 1, 1, 1, 1, 1, 2, 1, 1, 1, 1, 1, 1],
   [1, 1, 1, 1, 1, 1, 1, 3, 1, 3, 1, 1, 1, 1, 1, 1],
   [1, 3, 1, 1, 1, 1, 1, 3, 1, 3, 1, 1, 1, 1, 1, 1],
   [1, 3, 1, 1, 1, 1, 1, 1, 1, 1, 1, 1, 1, 1, 1, 1]]

/-- One byte of `decode`: the state and the code point so far. -/
def decode (state codepoint : ℕ) (byte : UInt8) : ℕ × ℕ :=
  let type := utf8Class byte
  let codepoint' :=
    if state ≠ 0 then byte.toNat &&& 0x3F ||| codepoint <<< 6
    else (0xFF >>> type) &&& byte.toNat
  ((utf8Rows.getD state []).getD type 1, codepoint')

def hexDigit (upper : Bool) (n : ℕ) : UInt8 :=
  if n < 10 then UInt8.ofNat (48 + n)
  else UInt8.ofNat ((if upper then 65 else 97) + (n - 10))

/-- `%.2X`. -/
def hexByte (b : UInt8) : Bytes := [hexDigit true (b.toNat / 16), hexDigit true (b.toNat % 16)]

/-- What `dump_escaped` writes for a decoded code point whose last byte is
`byte`. -/
def writeCodepoint (codepoint : ℕ) (byte : UInt8) : Bytes :=
  if codepoint = 0x08 then ascii "\\b"
  else if codepoint = 0x09 then ascii "\\t"
  else if codepoint = 0x0A then ascii "\\n"
  else if codepoint = 0x0C then ascii "\\f"
  else if codepoint = 0x0D then ascii "\\r"
  else if codepoint = 0x22 then ascii "\\\""
  else if codepoint = 0x5C then ascii "\\\\"
  else if codepoint ≤ 0x1F then
    ascii "\\u00" ++ [hexDigit false (codepoint / 16), hexDigit false (codepoint % 16)]
  else [byte]

/-- The loop of `dump_escaped`, at index `i`, with what it has written. -/
def dumpEscapedFrom (i state codepoint : ℕ) (last : UInt8) (written : Bytes) :
    Bytes → Except Thrown Bytes
  | [] =>
      if state = 0 then .ok written
      else .error (.std (ascii
        "[json.exception.type_error.316] incomplete UTF-8 string; last byte: 0x" ++ hexByte last))
  | byte :: rest =>
      let (state', codepoint') := decode state codepoint byte
      if state' = 0 then
        dumpEscapedFrom (i + 1) 0 codepoint' byte (written ++ writeCodepoint codepoint' byte) rest
      else if state' = 1 then
        .error (.std (ascii "[json.exception.type_error.316] invalid UTF-8 byte at index " ++
          decimal i ++ ascii ": 0x" ++ hexByte byte))
      else dumpEscapedFrom (i + 1) state' codepoint' byte (written ++ [byte]) rest

def dumpEscaped (s : Bytes) : Except Thrown Bytes := dumpEscapedFrom 0 0 0 0 [] s

/-! ## Writing values -/

/-- `dump` of a binary value. -/
def dumpBinary (bytes : Bytes) (subtype : Option ℕ) : Bytes :=
  ascii "\x7b\"bytes\":[" ++ (ascii ",").intercalate (bytes.map fun b => decimal b.toNat) ++
    ascii "],\"subtype\":" ++ (match subtype with | some t => decimal t | none => ascii "null") ++
    ascii "\x7d"

def quoted (s : Bytes) : Except Thrown Bytes := do
  return ascii "\"" ++ (← dumpEscaped s) ++ ascii "\""

mutual

def dump : Json → Except Thrown Bytes
  | null => .ok (ascii "null")
  | boolean b => .ok (if b then ascii "true" else ascii "false")
  | integer n => .ok (decimalInt n)
  | float x => .ok x.text
  | string s => quoted s
  | array elements => do return ascii "[" ++ (← dumpElements elements) ++ ascii "]"
  | object members => do return ascii "\x7b" ++ (← dumpMembers members) ++ ascii "\x7d"
  | binary bytes subtype => .ok (dumpBinary bytes subtype)
  | discarded => .ok (ascii "<discarded>")

def dumpElements : List Json → Except Thrown Bytes
  | [] => .ok []
  | [element] => dump element
  | element :: rest => do return (← dump element) ++ ascii "," ++ (← dumpElements rest)

def dumpMembers : List (Bytes × Json) → Except Thrown Bytes
  | [] => .ok []
  | [(key, value)] => do return (← quoted key) ++ ascii ":" ++ (← dump value)
  | (key, value) :: rest => do
      return (← quoted key) ++ ascii ":" ++ (← dump value) ++ ascii "," ++ (← dumpMembers rest)

end

end Json

end Structlog
