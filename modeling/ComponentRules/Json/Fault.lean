import ComponentRules.Json.Value
import ComponentRules.Text.Quoted

/-!
# What can be wrong with a JSON text

A fault has a cause and the number of bytes consumed when it shows. Its position in the text is
the line of the last byte consumed and the number of bytes consumed on that line.

* `Cause`, `Cause.message`: what is wrong, in words.
* `Fault.locate`: the fault with line and column.
-/

namespace ComponentRules.Json

/-- What a reader may ask a value to be. -/
inductive Shape
  | string
  | sequence
  | map
  | record (name : String)
  deriving DecidableEq, Repr

/-- What a value turns out to be, when that is not what was asked for. -/
inductive Found
  | null
  | bool (b : Bool)
  | number (n : Number)
  | string (s : String)
  | sequence
  | map
  deriving DecidableEq, Repr

inductive Cause
  | endInValue
  | endInList
  | endInObject
  | endInString
  | expectedValue
  | expectedCommaOrBracket
  | expectedCommaOrBrace
  | expectedColon
  | expectedKey
  | trailingComma
  | trailingCharacters
  | tooDeep
  | brokenWord
  | invalidNumber
  | numberOutOfRange
  | invalidEscape
  | loneSurrogate
  | endOfEscape
  | controlCharacter
  | invalidType (found : Found) (expected : Shape)
  | missingField (name : String)
  | duplicateField (name : String)
  deriving DecidableEq, Repr

/-- A cause and the number of bytes of the text consumed when it shows. -/
structure Fault where
  cause : Cause
  offset : Nat
  deriving DecidableEq, Repr

/-- A cause with its line, counted from 1, and the bytes consumed on that line. -/
structure LocatedFault where
  cause : Cause
  line : Nat
  column : Nat
  deriving DecidableEq, Repr

def Shape.message : Shape → String
  | .string => "a string"
  | .sequence => "a sequence"
  | .map => "a map"
  | .record name => "struct " ++ name

def Found.message : Found → String
  | .null => "null"
  | .bool b => "boolean `" ++ (if b then "true" else "false") ++ "`"
  | .number n =>
    (match n with
      | .integer _ => "integer `"
      | .float _ => "floating point `") ++ String.ofList n.text ++ "`"
  | .string s => "string " ++ Text.shown s
  | .sequence => "sequence"
  | .map => "map"

def Cause.message : Cause → String
  | .endInValue => "EOF while parsing a value"
  | .endInList => "EOF while parsing a list"
  | .endInObject => "EOF while parsing an object"
  | .endInString => "EOF while parsing a string"
  | .expectedValue => "expected value"
  | .expectedCommaOrBracket => "expected `,` or `]`"
  | .expectedCommaOrBrace => "expected `,` or `\x7d`"
  | .expectedColon => "expected `:`"
  | .expectedKey => "key must be a string"
  | .trailingComma => "trailing comma"
  | .trailingCharacters => "trailing characters"
  | .tooDeep => "recursion limit exceeded"
  | .brokenWord => "expected ident"
  | .invalidNumber => "invalid number"
  | .numberOutOfRange => "number out of range"
  | .invalidEscape => "invalid escape"
  | .loneSurrogate => "lone leading surrogate in hex escape"
  | .endOfEscape => "unexpected end of hex escape"
  | .controlCharacter => "control character (\\u0000-\\u001F) found while parsing a string"
  | .invalidType found expected =>
    "invalid type: " ++ found.message ++ ", expected " ++ expected.message
  | .missingField name => "missing field `" ++ name ++ "`"
  | .duplicateField name => "duplicate field `" ++ name ++ "`"

/-- Line and column after a number of bytes, from a given line and column on. -/
def position (line column : Nat) : List Char → Nat → Nat × Nat
  | [], _ => (line, column)
  | c :: cs, offset =>
    if offset < c.utf8Size then (line, column + offset)
    else if c = '\n' then position (line + 1) 0 cs (offset - c.utf8Size)
    else position line (column + c.utf8Size) cs (offset - c.utf8Size)

/-- The fault as a position in a text. -/
def Fault.locate (text : List Char) (fault : Fault) : LocatedFault :=
  let (line, column) := position 1 0 text fault.offset
  ⟨fault.cause, line, column⟩

def LocatedFault.message (fault : LocatedFault) : String :=
  fault.cause.message ++ " at line " ++ Text.decimal fault.line ++ " column " ++
    Text.decimal fault.column

end ComponentRules.Json
