import ComponentRules.Yaml.Real

/-!
# What can be wrong with a YAML text

A text may not be YAML at all: then a flaw shows at some place while something is being read that
began at another. Or it is YAML, but a node is not what was asked for.

* `Flaw`, `Task`: what is wrong with a text, and what is being read.
* `Misfit`: what is wrong with a node.
* `Path`: where a node stands in its document.
* `Fault`, `Fault.message`: either of them, in words.
-/

namespace ComponentRules.Yaml

/-- A place in a text. Lines and columns count from zero. -/
structure Place where
  line : Nat
  column : Nat
  deriving DecidableEq, Repr

namespace Place

def start : Place :=
  ⟨0, 0⟩

/-- A place in words, where lines and columns count from one. -/
def text (p : Place) : String :=
  "line " ++ Text.decimal (p.line + 1) ++ " column " ++ Text.decimal (p.column + 1)

/-- What a message says about its place: nothing at the very start. -/
def behind (p : Place) : String :=
  if p = .start then "" else " at " ++ p.text

end Place

/-! ## Texts that are not YAML -/

/-- What is being read when a flaw shows. -/
inductive Task
  | token
  | simpleKey
  | directive
  | versionDirective
  | tagDirective
  | directiveHandle
  | directiveHandleEnd
  | directiveUri
  | alias
  | anchor
  | tag
  | tagUri
  | block
  | quoted
  | escape
  | plain
  | node
  | blockNode
  | flowNode
  | blockSequence
  | blockMapping
  | flowSequence
  | flowMapping
  deriving DecidableEq, Repr

def Task.message : Task → String
  | .token => "while scanning for the next token"
  | .simpleKey => "while scanning a simple key"
  | .directive => "while scanning a directive"
  | .versionDirective => "while scanning a %YAML directive"
  | .tagDirective => "while scanning a %TAG directive"
  | .directiveHandle => "while scanning a tag directive"
  | .directiveHandleEnd => "while parsing a tag directive"
  | .directiveUri => "while parsing a %TAG directive"
  | .alias => "while scanning an alias"
  | .anchor => "while scanning an anchor"
  | .tag => "while scanning a tag"
  | .tagUri => "while parsing a tag"
  | .block => "while scanning a block scalar"
  | .quoted => "while scanning a quoted scalar"
  | .escape => "while parsing a quoted scalar"
  | .plain => "while scanning a plain scalar"
  | .node => "while parsing a node"
  | .blockNode => "while parsing a block node"
  | .flowNode => "while parsing a flow node"
  | .blockSequence => "while parsing a block collection"
  | .blockMapping => "while parsing a block mapping"
  | .flowSequence => "while parsing a flow sequence"
  | .flowMapping => "while parsing a flow mapping"

inductive Flaw
  | strayCharacter
  | keyWithoutColon
  | misplacedEntry
  | misplacedKey
  | misplacedValue
  | unknownDirective
  | namelessDirective
  | unendedDirectiveName
  | unendedHeader
  | versionWithoutPoint
  | longVersion
  | noVersion
  | noBlank
  | noBlankOrBreak
  | noName
  | noClosingBracket
  | noHandle
  | noUri
  | noOctet
  | badLeadingOctet
  | badTrailingOctet
  | zeroIndentation
  | tabInIndentation
  | edgeInQuotes
  | endInQuotes
  | unknownEscape
  | noHexDigit
  | badCode
  | colonInPlain
  | tabInPlain
  | repeatedVersion
  | unknownVersion
  | repeatedHandle
  | noDocumentStart
  | unknownHandle
  | noContent
  | noEntry
  | noKey
  | noItemEnd
  | noPairEnd
  deriving DecidableEq, Repr

def Flaw.message : Flaw → String
  | .strayCharacter => "found character that cannot start any token"
  | .keyWithoutColon => "could not find expected ':'"
  | .misplacedEntry => "block sequence entries are not allowed in this context"
  | .misplacedKey => "mapping keys are not allowed in this context"
  | .misplacedValue => "mapping values are not allowed in this context"
  | .unknownDirective => "found unknown directive name"
  | .namelessDirective => "could not find expected directive name"
  | .unendedDirectiveName => "found unexpected non-alphabetical character"
  | .unendedHeader => "did not find expected comment or line break"
  | .versionWithoutPoint => "did not find expected digit or '.' character"
  | .longVersion => "found extremely long version number"
  | .noVersion => "did not find expected version number"
  | .noBlank => "did not find expected whitespace"
  | .noBlankOrBreak => "did not find expected whitespace or line break"
  | .noName => "did not find expected alphabetic or numeric character"
  | .noClosingBracket => "did not find the expected '>'"
  | .noHandle => "did not find expected '!'"
  | .noUri => "did not find expected tag URI"
  | .noOctet => "did not find URI escaped octet"
  | .badLeadingOctet => "found an incorrect leading UTF-8 octet"
  | .badTrailingOctet => "found an incorrect trailing UTF-8 octet"
  | .zeroIndentation => "found an indentation indicator equal to 0"
  | .tabInIndentation => "found a tab character where an indentation space is expected"
  | .edgeInQuotes => "found unexpected document indicator"
  | .endInQuotes => "found unexpected end of stream"
  | .unknownEscape => "found unknown escape character"
  | .noHexDigit => "did not find expected hexdecimal number"
  | .badCode => "found invalid Unicode character escape code"
  | .colonInPlain => "found unexpected ':'"
  | .tabInPlain => "found a tab character that violates indentation"
  | .repeatedVersion => "found duplicate %YAML directive"
  | .unknownVersion => "found incompatible YAML document"
  | .repeatedHandle => "found duplicate %TAG directive"
  | .noDocumentStart => "did not find expected <document start>"
  | .unknownHandle => "found undefined tag handle"
  | .noContent => "did not find expected node content"
  | .noEntry => "did not find expected '-' indicator"
  | .noKey => "did not find expected key"
  | .noItemEnd => "did not find expected ',' or ']'"
  | .noPairEnd => "did not find expected ',' or '\x7d'"

/-! ## Nodes that do not fit -/

/-- What a node may be asked to be. -/
inductive Shape
  | any
  | string
  | sequence
  | record (name : String)
  | fieldName
  | bool
  | integer
  | real
  | null
  deriving DecidableEq, Repr

/-- What a node turns out to be. -/
inductive Found
  | null
  | bool (b : Bool)
  | integer (n : Int)
  | real (x : Real)
  | string (s : String)
  | sequence
  | mapping
  deriving DecidableEq, Repr

inductive Misfit
  | wrongType (found : Found) (expected : Shape)
  | wrongText (text : String) (expected : Shape)
  /-- A tag of the document's own. -/
  | ownTag
  | repeatedField (name : String)
  | repeatedKey (key : Found)
  deriving DecidableEq, Repr

def Shape.message : Shape → String
  | .any => "any value"
  | .string => "a string"
  | .sequence => "a sequence"
  | .record name => "struct " ++ name
  | .fieldName => "field identifier"
  | .bool => "a boolean"
  | .integer => "an integer"
  | .real => "a float"
  | .null => "null"

/-- Whether a whole number fits so many bits, with or without sign. -/
def fits (bits : Nat) (n : Int) : Bool :=
  -(Nat.pow 2 (bits - 1) : Int) ≤ n && n < (Nat.pow 2 bits : Int)

namespace Found

def boolText (b : Bool) : String :=
  if b then "true" else "false"

def integerText (n : Int) : String :=
  (if n < 0 then "-" else "") ++ Text.decimal n.natAbs

/-- What is said of a node that is not what was asked for. Of a whole number that needs more than 64
bits it is said that it has 128. -/
def message : Found → String
  | .null => "unit value"
  | .bool b => "boolean `" ++ boolText b ++ "`"
  | .integer n =>
    "integer `" ++ integerText n ++ "`" ++
      if fits 64 n then "" else if n < 0 then " as i128" else " as u128"
  | .real x => "floating point `" ++ x.plain ++ "`"
  | .string s => "string " ++ Text.shown s
  | .sequence => "sequence"
  | .mapping => "map"

/-- What is said of a key that comes up twice. -/
def keyMessage : Found → String
  | .null => "with null key"
  | .bool b => "with key `" ++ boolText b ++ "`"
  | .integer n => "with key " ++ integerText n
  | .real x => "with key " ++ x.written
  | .string s => "with key " ++ Text.shown s
  | .sequence | .mapping => "in YAML map"

end Found

def Misfit.message : Misfit → String
  | .wrongType found expected =>
    "invalid type: " ++ found.message ++ ", expected " ++ expected.message
  | .wrongText text expected =>
    "invalid value: string " ++ Text.shown text ++ ", expected " ++ expected.message
  | .ownTag => "untagged and internally tagged enums do not support enum input"
  | .repeatedField name => "duplicate field `" ++ name ++ "`"
  | .repeatedKey key => "duplicate entry " ++ key.keyMessage

/-! ## Paths -/

/-- A step from a collection to a node in it: to the value of a key, to an item, or to the value
of a key that is no scalar. -/
inductive Step
  | key (name : String)
  | item (number : Nat)
  | unnamed
  deriving DecidableEq, Repr

/-- The steps from the root to a node, the last first. -/
abbrev Path := List Step

namespace Path

/-- A path in words; that of the root is a point. -/
def text : Path → String
  | [] => "."
  | .key name :: path => (if path.isEmpty then "" else text path ++ ".") ++ name
  | .item number :: path => text path ++ "[" ++ Text.decimal number ++ "]"
  | .unnamed :: path => (if path.isEmpty then "" else text path ++ ".") ++ "?"

end Path

/-! ## Faults -/

/-- Where a node stands, in the text and in its document. -/
structure Site where
  place : Place
  path : Path
  deriving DecidableEq, Repr

/-- What a message says before a fault at a site: nothing at the root. -/
def Site.before (s : Site) : String :=
  if s.path.text = "." then "" else s.path.text ++ ": "

inductive Fault
  /-- A character that may not stand in a text, behind so many bytes. -/
  | control (offset : Nat)
  /-- A flaw at a place, what is being read and where that began. -/
  | malformed (flaw : Flaw) (place : Place) (task : Option (Task × Place))
  | unknownAnchor (place : Place)
  | severalDocuments
  | tooDeep (place : Place)
  | tooManyAliases
  /-- A node that does not fit, and where it stands. -/
  | misfit (misfit : Misfit) (site : Site)
  /-- The text was not read to its end. -/
  | unfinished
  deriving DecidableEq, Repr

namespace Fault

def message : Fault → String
  | .control offset =>
    "control characters are not allowed" ++
      if offset = 0 then "" else " at position " ++ Text.decimal offset
  | .malformed flaw place none => flaw.message ++ place.behind
  | .malformed flaw place (some (task, start)) =>
    flaw.message ++ place.behind ++ ", " ++ task.message ++
      if start = place then "" else start.behind
  | .unknownAnchor place => "unknown anchor" ++ place.behind
  | .severalDocuments =>
    "deserializing from YAML containing more than one document is not supported"
  | .tooDeep place => "recursion limit exceeded" ++ place.behind
  | .tooManyAliases => "repetition limit exceeded"
  | .misfit m site => site.before ++ m.message ++ site.place.behind
  | .unfinished => "text was not read to its end"

end Fault

end ComponentRules.Yaml
