import ComponentRules.Yaml.Tag

/-!
# YAML tokens

Tokens are cut from the text in order, but whether a word begins a mapping is known only at the
colon behind it. So the place of every word that could be a key is remembered, one for each open
flow collection and one outside them, and the tokens of the mapping are put there later.

* `Lexeme`: what a token is, with the beginnings and ends of blocks that indentation stands for.
* `Token`: a lexeme and its place.
* `Scanner`: the tokens so far, and what the next ones depend on.
* `Token.scan`: the tokens of a text, up to its end or to the first fault.
-/

namespace ComponentRules.Yaml

inductive Lexeme
  | directive (d : Directive)
  | documentStart
  | documentEnd
  | blockSequence
  | blockMapping
  | blockEnd
  | flowSequence
  | flowSequenceEnd
  | flowMapping
  | flowMappingEnd
  | blockEntry
  | flowEntry
  | key
  | value
  | alias (name : List Char)
  | anchor (name : List Char)
  | tag (t : Tag)
  | scalar (plain : Bool) (text : List Char)
  /-- The end of the text. -/
  | finish
  /-- A fault. Nothing behind it is read. -/
  | broken (fault : Fault)

structure Token where
  lexeme : Lexeme
  place : Place

/-- A word that could be a key: the number of tokens before it and where it begins. If nothing else
may stand there, it is required. -/
structure KeyPlace where
  required : Bool
  number : Nat
  index : Nat
  place : Place

structure Scanner where
  cursor : Cursor
  /-- The tokens so far, last first. -/
  tokens : List Token
  count : Nat
  /-- The indentation of the innermost block, if there is one. -/
  indent : Option Nat
  /-- The indentations of the blocks around it, innermost first. -/
  outer : List (Option Nat)
  /-- Whether a key may begin here. -/
  keyAllowed : Bool
  /-- The word that could be a key outside all flow collections, or in the innermost. -/
  place : Option KeyPlace
  /-- The same for the collections around it, innermost first. -/
  places : List (Option KeyPlace)

namespace Scanner

/-- Whether a flow collection is open. -/
def inFlow (s : Scanner) : Bool :=
  !s.places.isEmpty

def column (s : Scanner) : Nat :=
  s.cursor.column

/-- Adds a token that begins here. -/
def push (s : Scanner) (lexeme : Lexeme) : Scanner :=
  { s with tokens := ⟨lexeme, s.cursor.place⟩ :: s.tokens, count := s.count + 1 }

/-- Adds a token of some characters. -/
def pushOver (s : Scanner) (lexeme : Lexeme) (size : Nat) : Scanner :=
  { s.push lexeme with cursor := s.cursor.advance size }

/-- Puts a token behind the first `number` tokens. -/
def insert (s : Scanner) (number : Nat) (token : Token) : Scanner :=
  let behind := s.count - number
  { s with
    tokens := s.tokens.take behind ++ token :: s.tokens.drop behind
    count := s.count + 1 }

/-- A flaw shows here, outside all words. -/
def refuse {α : Type} (s : Scanner) (flaw : Flaw) : Scan α :=
  .error (.malformed flaw s.cursor.place none)

/-! ## Indentation -/

/-- Whether the innermost block is indented less than a column. -/
def isShallower (indent : Option Nat) (column : Nat) : Bool :=
  indent.all fun n => n < column

/-- Opens a block at a place that is deeper than the innermost block. The token goes behind the
first `number` tokens. Inside flow collections there are no blocks. -/
def roll (s : Scanner) (place : Place) (number : Nat) (lexeme : Lexeme) : Scanner :=
  if !s.inFlow && isShallower s.indent place.column then
    { s.insert number ⟨lexeme, place⟩ with
      indent := some place.column
      outer := s.indent :: s.outer }
  else s

/-- Closes blocks as long as the innermost is deeper than a column. -/
def unrollTo (column : Nat) (s : Scanner) : List (Option Nat) → Scanner
  | [] => s
  | indent :: outer =>
    if s.indent.any fun n => column < n then
      unrollTo column { s.push .blockEnd with indent := indent, outer := outer } outer
    else s

/-- Closes the blocks that are deeper than a column. -/
def unroll (s : Scanner) (column : Nat) : Scanner :=
  if s.inFlow then s else unrollTo column s s.outer

/-- Closes all blocks. -/
def unrollAll (s : Scanner) : Scanner :=
  if s.inFlow then s
  else
    { s with
      tokens := List.replicate s.outer.length ⟨.blockEnd, s.cursor.place⟩ ++ s.tokens
      count := s.count + s.outer.length
      indent := none
      outer := [] }

/-! ## Keys -/

/-- The most bytes from the beginning of a key to its colon. -/
def maxKeySize : Nat := 1024

/-- Gives a place up. It may not be required. -/
def KeyPlace.drop (p : KeyPlace) (c : Cursor) : Scan (Option KeyPlace) :=
  if p.required then c.fail .simpleKey p.place .keyWithoutColon else .ok none

/-- Forgets a place that can no longer be a key, because the line has ended or is too long. -/
def expire (c : Cursor) : Option KeyPlace → Scan (Option KeyPlace)
  | none => .ok none
  | some p =>
    if p.place.line < c.line ∨ p.index + maxKeySize < c.index then KeyPlace.drop p c
    else .ok (some p)

/-- Forgets all such places, from the outermost on. -/
def expireAll (s : Scanner) : Scan Scanner := do
  let places ← s.places.reverse.mapM (expire s.cursor)
  let place ← expire s.cursor s.place
  pure { s with place, places := places.reverse }

/-- Forgets the current place. -/
def dropPlace (s : Scanner) : Scan Scanner := do
  match s.place with
  | none => pure s
  | some p => pure { s with place := ← KeyPlace.drop p s.cursor }

/-- A key that begins here. It is required where the next key of the innermost block must stand. -/
def here (s : Scanner) : KeyPlace where
  required := !s.inFlow && s.indent == some s.column
  number := s.count
  index := s.cursor.index
  place := s.cursor.place

/-- Remembers that a key could begin here. -/
def savePlace (s : Scanner) : Scan Scanner :=
  if s.keyAllowed then do
    let dropped ← s.dropPlace
    pure { dropped with place := some s.here }
  else .ok s

/-! ## Tokens -/

/-- Passes over what may stand before a token. Outside flow collections a key may begin on every
line. -/
def skipMargin (s : Scanner) : Scanner :=
  let (broken, cursor) := s.cursor.margin (s.inFlow || !s.keyAllowed) s.inFlow
  { s with cursor, keyAllowed := s.keyAllowed || broken && !s.inFlow }

/-- A directive or a document's edge: all blocks end before it. -/
def edge (s : Scanner) : Scan Scanner := do
  let s ← s.unrollAll.dropPlace
  pure { s with keyAllowed := false }

def scanDirective (s : Scanner) : Scan Scanner := do
  let s ← s.edge
  let (d, cursor) ← s.cursor.directive
  pure { s.push (.directive d) with cursor }

def scanMarker (s : Scanner) (lexeme : Lexeme) : Scan Scanner := do
  let s ← s.edge
  pure (s.pushOver lexeme 3)

/-- The beginning of a flow collection may be a key. -/
def openFlow (s : Scanner) (lexeme : Lexeme) : Scan Scanner := do
  let s ← s.savePlace
  pure { s.pushOver lexeme 1 with keyAllowed := true, place := none, places := s.place :: s.places }

def closeFlow (s : Scanner) (lexeme : Lexeme) : Scan Scanner := do
  let s ← s.dropPlace
  let s := { s.pushOver lexeme 1 with keyAllowed := false }
  pure <|
    match s.places with
    | [] => s
    | place :: places => { s with place, places }

def flowEntry (s : Scanner) : Scan Scanner := do
  let s ← s.dropPlace
  pure { s.pushOver .flowEntry 1 with keyAllowed := true }

/-- An indicator that may open a block here, if a key could begin here. -/
def openBlock (s : Scanner) (lexeme : Lexeme) (flaw : Flaw) : Scan Scanner :=
  if s.inFlow then .ok s
  else if s.keyAllowed then .ok (s.roll s.cursor.place s.count lexeme)
  else s.refuse flaw

def blockEntry (s : Scanner) : Scan Scanner := do
  let s ← (← s.openBlock .blockSequence .misplacedEntry).dropPlace
  pure { s.pushOver .blockEntry 1 with keyAllowed := true }

def explicitKey (s : Scanner) : Scan Scanner := do
  let s ← (← s.openBlock .blockMapping .misplacedKey).dropPlace
  pure { s.pushOver .key 1 with keyAllowed := !s.inFlow }

/-- The colon behind a key. If no word before it could be one, the key is empty or stands on lines
of its own. -/
def value (s : Scanner) : Scan Scanner :=
  match s.place with
  | some p =>
    let s := (s.insert p.number ⟨.key, p.place⟩).roll p.place p.number .blockMapping
    .ok { s.pushOver .value 1 with keyAllowed := false, place := none }
  | none => do
    let s ← s.openBlock .blockMapping .misplacedValue
    pure { s.pushOver .value 1 with keyAllowed := !s.inFlow }

/-- A token that may be a key. -/
def word (s : Scanner) (read : Cursor → Scan (Lexeme × Cursor)) : Scan Scanner := do
  let s ← s.savePlace
  let (lexeme, cursor) ← read s.cursor
  pure { s.push lexeme with cursor, keyAllowed := false }

/-- The name behind an asterisk or an ampersand. -/
def scanName (task : Task) (lexeme : List Char → Lexeme) (c : Cursor) : Scan (Lexeme × Cursor) :=
  let inner := c.advance 1
  let name := inner.takeWhile isWordChar
  let behind := inner.dropWhile isWordChar
  let ends := endsWord behind.next? ||
    behind.next?.any ['?', ':', ',', ']', '\x7d', '%', '@', '\x60'].contains
  if !name.isEmpty && ends then .ok (lexeme name, behind) else behind.fail task c.place .noName

def blockScalar (s : Scanner) (literal : Bool) : Scan Scanner := do
  let s ← s.dropPlace
  let (text, cursor) ← s.cursor.block literal s.indent
  pure { s.push (.scalar false text) with cursor, keyAllowed := true }

def quotedScalar (s : Scanner) (single : Bool) : Scan Scanner :=
  s.word fun c => do
    let (text, c) ← c.quoted single
    pure (.scalar false text, c)

/-- A plain scalar. If a line end follows, a key may begin behind it. -/
def plainScalar (s : Scanner) : Scan Scanner := do
  let s ← s.savePlace
  let least := match s.indent with
    | some n => n + 1
    | none => 0
  let (text, broken, cursor) ← s.cursor.plain s.inFlow least
  pure { s.push (.scalar true text) with cursor, keyAllowed := broken }

/-- The characters that a plain scalar does not begin with, unless a word goes on behind some of
them. -/
def isIndicator (c : Char) : Bool :=
  ['-', '?', ':', ',', '[', ']', '\x7b', '\x7d', '#', '&', '*', '!', '|', '>', '\'', '"', '%', '@',
    '\x60'].contains c

/-- The token that begins with a character. -/
def token (s : Scanner) (c : Char) : Scan Scanner :=
  let second := s.cursor.second?
  if c == '%' && s.column == 0 then s.scanDirective
  else if s.cursor.atMarker '-' then s.scanMarker .documentStart
  else if s.cursor.atMarker '.' then s.scanMarker .documentEnd
  else if c == '[' then s.openFlow .flowSequence
  else if c == '\x7b' then s.openFlow .flowMapping
  else if c == ']' then s.closeFlow .flowSequenceEnd
  else if c == '\x7d' then s.closeFlow .flowMappingEnd
  else if c == ',' then s.flowEntry
  else if c == '-' && endsWord second then s.blockEntry
  else if c == '?' && (s.inFlow || endsWord second) then s.explicitKey
  else if c == ':' && (s.inFlow || endsWord second) then s.value
  else if c == '*' then s.word (scanName .alias .alias)
  else if c == '&' then s.word (scanName .anchor .anchor)
  else if c == '!' then
    s.word fun cursor => do
      let (t, cursor) ← cursor.tag s.inFlow
      pure (.tag t, cursor)
  else if c == '|' && !s.inFlow then s.blockScalar true
  else if c == '>' && !s.inFlow then s.blockScalar false
  else if c == '\'' then s.quotedScalar true
  else if c == '"' then s.quotedScalar false
  else if !isBlank c &&
    (!isIndicator c || c == '-' || !s.inFlow && (c == '?' || c == ':')) then s.plainScalar
  else s.cursor.fail .token s.cursor.place .strayCharacter

/-- The end of the text. It stands at the beginning of a line. -/
def finish (s : Scanner) : Scan Scanner := do
  let s := { s with cursor := s.cursor.endLine }
  let s ← s.unrollAll.dropPlace
  pure (s.push .finish)

/-- The next token, with those that are known only now to stand before it. -/
def fetch (s : Scanner) : Scan Scanner := do
  let s ← s.skipMargin.expireAll
  let s := s.unroll s.column
  let s ← match s.cursor.next? with
    | none => s.finish
    | some c => s.token c
  s.expireAll

/-- Whether all tokens are there. -/
def isFinished (s : Scanner) : Bool :=
  match s.tokens with
  | ⟨.finish, _⟩ :: _ => true
  | _ => false

/-- The tokens before which no token can be put any more. -/
def settled (s : Scanner) : List Token :=
  let numbers := (s.place :: s.places).filterMap fun place => place.map (·.number)
  s.tokens.reverse.take (numbers.foldl min s.count)

/-- All tokens from here on; `fuel` bounds their number. -/
def run : Nat → Scanner → List Token
  | 0, s => s.settled ++ [⟨.broken .unfinished, s.cursor.place⟩]
  | fuel + 1, s =>
    if s.isFinished then s.tokens.reverse
    else match s.fetch with
      | .ok s => run fuel s
      | .error fault => s.settled ++ [⟨.broken fault, s.cursor.place⟩]

/-- A scanner at the beginning of a text. -/
def start (text : List Char) : Scanner :=
  { cursor := .start text
    tokens := []
    count := 0
    indent := none
    outer := []
    keyAllowed := true
    place := none
    places := [] }

end Scanner

/-- The number of bytes before the first character that may not stand in a text. -/
def controlOffset? (offset : Nat) : List Char → Option Nat
  | [] => none
  | c :: cs => if isAllowed c then controlOffset? (offset + c.utf8Size) cs else some offset

/-- The tokens of a text, up to its end or to the first fault. -/
def Token.scan (text : List Char) : List Token :=
  match controlOffset? 0 text with
  | some offset => [⟨.broken (.control offset), .start⟩]
  | none => Scanner.run (text.length + 2) (.start text)

end ComponentRules.Yaml
