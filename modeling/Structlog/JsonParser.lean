import Structlog.JsonLexer

/-!
# Reading values

`saxParseInternal` is the loop of the parser.  It tells a handler what it reads,
and keeps the open arrays and objects on a stack of its own.  `parse` runs it with
the handler that builds a value, `accept` with one that does nothing.

The handler `Dom` holds pointers into the value it builds.  A pointer is the path
from the root; an element that is added later does not change the paths of the
others.  A parse without a callback is what is modelled.
-/

namespace Structlog.Json

open Lib

/-- The exceptions of a parse. -/
inductive JsonException
  | parseError (id byte : ℕ) (what : Bytes)
  | outOfRange (id : ℕ) (what : Bytes)

namespace JsonException

/-- `parse_error::create`. -/
def createParseError (id : ℕ) (pos : Position) (whatArg : Bytes) : JsonException :=
  .parseError id pos.charsReadTotal
    (ascii "[json.exception.parse_error." ++ decimal id ++ ascii "] parse error at line " ++
      decimal (pos.linesRead + 1) ++ ascii ", column " ++ decimal pos.charsReadCurrentLine ++
      ascii ": " ++ whatArg)

/-- `out_of_range::create`. -/
def createOutOfRange (id : ℕ) (whatArg : Bytes) : JsonException :=
  .outOfRange id (ascii "[json.exception.out_of_range." ++ decimal id ++ ascii "] " ++ whatArg)

end JsonException

/-! ## Handlers -/

/-- The calls that a handler gets. -/
inductive SaxEvent
  | null
  | boolean (b : Bool)
  | numberInteger (n : ℤ)
  | numberUnsigned (n : ℕ)
  | numberFloat (x : FloatText) (text : Bytes)
  | string (s : Bytes)
  | startObject
  | key (s : Bytes)
  | endObject
  | startArray
  | endArray

/-- A handler with state `σ`: its answers to events, and `parse_error`. -/
structure Sax (σ : Type) where
  event : SaxEvent → σ → Bool × σ
  parseError : ℕ → Bytes → JsonException → σ → Except JsonException (Bool × σ)

/-- `json_sax_acceptor`. -/
def acceptor : Sax Unit where
  event _ s := (true, s)
  parseError _ _ _ s := .ok (false, s)

/-! ### The handler that builds a value -/

/-- A step from a value to one inside it. -/
inductive PathStep
  | index (i : ℕ)
  | member (key : Bytes)

/-- `ref_stack.back()` and `object_element` are paths from the root. -/
abbrev Path := List PathStep

/-- The value at the end of a path. -/
def at? : Path → Json → Option Json
  | [], j => some j
  | .index i :: path, array elements => elements[i]? >>= at? path
  | .member key :: path, object members => lookupEntry key members >>= at? path
  | _ :: _, _ => none

/-- Writing through a pointer. -/
def modifyAt : Path → (Json → Json) → Json → Json
  | [], f, j => f j
  | .index i :: path, f, array elements => array (elements.modify i (modifyAt path f))
  | .member key :: path, f, object members =>
      object (modifyEntry key (modifyAt path f) members)
  | _ :: _, _, j => j

/-- `json_sax_dom_parser`; the back of `ref_stack` comes first. -/
structure Dom where
  root : Json
  refStack : List Path
  objectElement : Option Path
  errored : Bool

namespace Dom

def new : Dom := ⟨.null, [], none, false⟩

/-- `handle_value`, with the pointer it returns. -/
def handleValue (v : Json) (dom : Dom) : Path × Dom :=
  match dom.refStack with
  -- the first value is the root
  | [] => ([], { dom with root := v })
  | back :: _ =>
      match at? back dom.root with
      | some (array elements) =>
          (back ++ [.index elements.length],
            { dom with root := modifyAt back (fun _ => array (elements ++ [v])) dom.root })
      -- in an object, `key` has made room for the value
      | _ =>
          let element := dom.objectElement.getD []
          (element, { dom with root := modifyAt element (fun _ => v) dom.root })

/-- `start_object` and `start_array`. -/
def start (v : Json) (dom : Dom) : Dom :=
  let (pointer, dom) := dom.handleValue v
  { dom with refStack := pointer :: dom.refStack }

/-- `operator[]` of the object at the back of the stack: null under a new key. -/
def withMember (key : Bytes) : Json → Json
  | object members =>
      object
        (if (lookupEntry key members).isSome then members else insertEntry key .null members)
  | j => j

def key (val : Bytes) (dom : Dom) : Dom :=
  let back := dom.refStack.head?.getD []
  { dom with
    root := modifyAt back (withMember val) dom.root
    objectElement := some (back ++ [.member val]) }

/-- `end_object` and `end_array`. -/
def finish (dom : Dom) : Dom := { dom with refStack := dom.refStack.tail }

def handle : SaxEvent → Dom → Dom
  | .null, dom => (dom.handleValue .null).2
  | .boolean b, dom => (dom.handleValue (.boolean b)).2
  | .numberInteger n, dom => (dom.handleValue (.integer n)).2
  | .numberUnsigned n, dom => (dom.handleValue (.integer n)).2
  | .numberFloat x _, dom => (dom.handleValue (.float x)).2
  | .string s, dom => (dom.handleValue (.string s)).2
  | .startObject, dom => dom.start (.object [])
  | .key s, dom => dom.key s
  | .endObject, dom => dom.finish
  | .startArray, dom => dom.start (.array [])
  | .endArray, dom => dom.finish

/-- The handler. -/
def sax (allowExceptions : Bool) : Sax Dom where
  event e dom := (true, dom.handle e)
  parseError _ _ ex dom :=
    if allowExceptions then .error ex else .ok (false, { dom with errored := true })

end Dom

/-! ## The parser -/

structure Parser where
  lexer : Lexer
  lastToken : TokenType

namespace Parser

variable (config : LexerConfig)

/-- `get_token`. -/
def getToken (p : Parser) : Parser :=
  let (token, lexer) := p.lexer.scan config
  ⟨lexer, token⟩

/-- The constructor reads the first token. -/
def new (input : Bytes) : Parser := getToken config ⟨.new input, .uninitialized⟩

/-- `exception_message`. -/
def exceptionMessage (p : Parser) (expected : TokenType) (context : Bytes) : Bytes :=
  ascii "syntax error " ++
    (if context ≠ [] then ascii "while parsing " ++ context ++ ascii " " else []) ++ ascii "- " ++
    (if p.lastToken = .parseError then
      p.lexer.errorMessage ++ ascii "; last read: '" ++ p.lexer.getTokenString ++ ascii "'"
    else ascii "unexpected " ++ p.lastToken.name) ++
    (if expected ≠ .uninitialized then ascii "; expected " ++ expected.name else [])

variable {σ : Type} (sax : Sax σ)

/-- `sax->parse_error` with a syntax error. -/
def syntaxError (expected : TokenType) (context : Bytes) (p : Parser) (s : σ) :
    Except JsonException (Bool × σ) :=
  sax.parseError p.lexer.position.charsReadTotal p.lexer.getTokenString
    (.createParseError 101 p.lexer.position (p.exceptionMessage expected context)) s

/-- How one turn of the loop ends: with the result of `sax_parse_internal`, or with
`continue`, the stack and `skip_to_state_evaluation`. -/
inductive Turn (σ : Type)
  | finished (result : Bool) (p : Parser) (s : σ)
  | again (p : Parser) (s : σ) (states : List Bool) (skipToStateEvaluation : Bool)

/-- `return sax->parse_error(..)`. -/
def reject (expected : TokenType) (context : Bytes) (p : Parser) (s : σ) :
    Except JsonException (Turn σ) := do
  let (result, s) ← syntaxError sax expected context p s
  return .finished result p s

/-- A call of the handler, and `return false` if it refuses. -/
def emit (e : SaxEvent) (p : Parser) (s : σ) (next : σ → Except JsonException (Turn σ)) :
    Except JsonException (Turn σ) :=
  let (accepted, s) := sax.event e s
  if accepted then next s else .ok (.finished false p s)

/-- A key and its separator, with the key as the last token; the value is inside `states`. -/
def parseKey (p : Parser) (s : σ) (states : List Bool) : Except JsonException (Turn σ) :=
  if p.lastToken ≠ .valueString then reject sax .valueString (ascii "object key") p s
  else
    emit sax (.key p.lexer.tokenBuffer) p s fun s =>
      let p := p.getToken config
      if p.lastToken ≠ .nameSeparator then
        reject sax .nameSeparator (ascii "object separator") p s
      else .ok (.again (p.getToken config) s states false)

/-- The second half of a turn, behind a value. -/
def evaluateState (p : Parser) (s : σ) : List Bool → Except JsonException (Turn σ)
  | [] => .ok (.finished true p s)
  | true :: states =>
      let p := p.getToken config
      if p.lastToken = .valueSeparator then
        .ok (.again (p.getToken config) s (true :: states) false)
      else if p.lastToken = .endArray then
        emit sax .endArray p s fun s => .ok (.again p s states true)
      else reject sax .endArray (ascii "array") p s
  | false :: states =>
      let p := p.getToken config
      if p.lastToken = .valueSeparator then
        parseKey config sax (p.getToken config) s (false :: states)
      else if p.lastToken = .endObject then
        emit sax .endObject p s fun s => .ok (.again p s states true)
      else reject sax .endObject (ascii "object") p s

/-- A whole turn at a value. -/
def parseValue (p : Parser) (s : σ) (states : List Bool) : Except JsonException (Turn σ) :=
  let value (e : SaxEvent) : Except JsonException (Turn σ) :=
    emit sax e p s fun s => evaluateState config sax p s states
  match p.lastToken with
  | .beginObject =>
      emit sax .startObject p s fun s =>
        let p := p.getToken config
        if p.lastToken = .endObject then
          -- an empty object ends in the turn that began it
          emit sax .endObject p s fun s => evaluateState config sax p s states
        else parseKey config sax p s (false :: states)
  | .beginArray =>
      emit sax .startArray p s fun s =>
        let p := p.getToken config
        if p.lastToken = .endArray then
          emit sax .endArray p s fun s => evaluateState config sax p s states
        else .ok (.again p s (true :: states) false)
  | .valueFloat =>
      match p.lexer.valueFloat with
      | some x => value (.numberFloat x p.lexer.tokenBuffer)
      | none => do
          let token := p.lexer.getTokenString
          let (result, s) ← sax.parseError p.lexer.position.charsReadTotal token
            (.createOutOfRange 406 (ascii "number overflow parsing '" ++ token ++ ascii "'")) s
          return .finished result p s
  | .literalFalse => value (.boolean false)
  | .literalNull => value .null
  | .literalTrue => value (.boolean true)
  | .valueInteger => value (.numberInteger p.lexer.valueInteger)
  | .valueString => value (.string p.lexer.tokenBuffer)
  | .valueUnsigned => value (.numberUnsigned p.lexer.valueUnsigned)
  -- the message of the lexer says enough without what was expected
  | .parseError => reject sax .uninitialized (ascii "value") p s
  | _ => reject sax .literalOrValue (ascii "value") p s

/-- One turn of the loop. -/
def turn (p : Parser) (s : σ) (states : List Bool) (skipToStateEvaluation : Bool) :
    Except JsonException (Turn σ) :=
  if skipToStateEvaluation then evaluateState config sax p s states
  else parseValue config sax p s states

/-- The loop of `sax_parse_internal`; `none` while it is still running after `n` turns. -/
def saxParseLoop : ℕ → Parser → σ → List Bool → Bool →
    Option (Except JsonException (Bool × Parser × σ))
  | 0, _, _, _, _ => none
  | n + 1, p, s, states, skip =>
      match turn config sax p s states skip with
      | .error ex => some (.error ex)
      | .ok (.finished result p s) => some (.ok (result, p, s))
      | .ok (.again p s states skip) => saxParseLoop n p s states skip

/-- `sax_parse_internal`. -/
def saxParseInternal (p : Parser) (s : σ) : Option (Except JsonException (Bool × Parser × σ)) :=
  saxParseLoop config sax (p.lexer.turns + 1) p s [] false

/-- The strict mode of `parse` and `sax_parse`: the input must be read completely. -/
def expectEnd (p : Parser) (result : Bool) (s : σ) : Except JsonException (Bool × σ) :=
  let p := p.getToken config
  if p.lastToken ≠ .endOfInput then syntaxError sax .endOfInput (ascii "value") p s
  else .ok (result, s)

/-- `sax_parse(sax, true)`. -/
def saxParse (p : Parser) (s : σ) : Option (Except JsonException (Bool × σ)) :=
  match saxParseInternal config sax p s with
  | none => none
  | some (.error ex) => some (.error ex)
  | some (.ok (result, p, s)) =>
      -- the end is expected only behind a value
      some (if result then p.expectEnd config sax result s else .ok (result, s))

/-- `parser::parse(true, result)`. -/
def parse (allowExceptions : Bool) (p : Parser) : Option (Except JsonException Json) :=
  match saxParseInternal config (Dom.sax allowExceptions) p Dom.new with
  | none => none
  | some (.error ex) => some (.error ex)
  | some (.ok (result, p, dom)) =>
      -- the end is expected behind an error as well, so `parse_error` may be called twice
      some ((p.expectEnd config (Dom.sax allowExceptions) result dom).map fun (_, dom) =>
        if dom.errored then .discarded else dom.root)

end Parser

/-- `json::parse`; the loop of the parser has more turns than it takes. -/
def parse (config : LexerConfig) (allowExceptions : Bool) (input : Bytes) :
    Option (Except JsonException Json) :=
  (Parser.new config input).parse config allowExceptions

/-- `json::accept`. -/
def accept (config : LexerConfig) (input : Bytes) : Option (Except JsonException Bool) :=
  ((Parser.new config input).saxParse config acceptor ()).map fun result => result.map Prod.fst

end Structlog.Json
