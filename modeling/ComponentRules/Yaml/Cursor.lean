import ComponentRules.Yaml.Fault

/-!
# Characters and positions in a YAML text

* `isAllowed`, `isBreak`, `isBlank`: the characters that may stand in a text, those that end a line
  and those that separate words.
* `Cursor`: the rest of a text and where it begins. Lines and columns count from zero; a carriage
  return and the line feed behind it end one line. The index counts bytes, the column characters.
* `Scan`: a reader that may come upon a flaw.
* `Gap`, `Cursor.gap`: the blanks and line ends between two words, and what they stand for.
-/

namespace ComponentRules.Yaml

/-- Printable characters, tabs and line ends. -/
def isAllowed (c : Char) : Bool :=
  let n := c.toNat
  n == 0x9 || n == 0xA || n == 0xD || (0x20 ≤ n && n ≤ 0x7E) || n == 0x85 ||
    (0xA0 ≤ n && n ≤ 0xD7FF) || (0xE000 ≤ n && n ≤ 0xFFFD) || 0x10000 ≤ n

def isBreak (c : Char) : Bool :=
  c == '\n' || c == '\r' || c == '\u0085' || c == '\u2028' || c == '\u2029'

def isBlank (c : Char) : Bool :=
  c == ' ' || c == '\t'

/-- Whether a word ends here: at a blank, at a line end or with the text. -/
def endsWord : Option Char → Bool
  | none => true
  | some c => isBlank c || isBreak c

/-- Letters, digits, hyphens and underscores of ASCII. -/
def isWordChar (c : Char) : Bool :=
  c.isAlphanum || c == '-' || c == '_'

/-- The character that a line end stands for. Two of them stand for themselves. -/
def breakChar (c : Char) : Char :=
  if c == '\u2028' || c == '\u2029' then c else '\n'

/-- The bytes that characters take in UTF-8. -/
def byteSize (cs : List Char) : Nat :=
  cs.foldl (fun n c => n + c.utf8Size) 0

/-- The rest of a text and where it begins. -/
structure Cursor where
  rest : List Char
  /-- The bytes before it. -/
  index : Nat
  line : Nat
  column : Nat

namespace Cursor

def start (text : List Char) : Cursor :=
  ⟨text, 0, 0, 0⟩

/-- Where the rest begins. -/
def place (c : Cursor) : Place :=
  ⟨c.line, c.column⟩

/-- The next character. -/
def next? (c : Cursor) : Option Char :=
  c.rest.head?

/-- The character behind the next one. -/
def second? (c : Cursor) : Option Char :=
  c.rest.tail.head?

/-- Passes over some characters of a line. -/
def advance (c : Cursor) (n : Nat) : Cursor :=
  ⟨c.rest.drop n, c.index + byteSize (c.rest.take n), c.line, c.column + n⟩

/-- The characters with a property, up to the first without it. None may end a line. -/
def takeWhile (c : Cursor) (p : Char → Bool) : List Char :=
  c.rest.takeWhile p

/-- Passes over the characters with a property. -/
def dropWhile (c : Cursor) (p : Char → Bool) : Cursor :=
  c.advance (c.rest.takeWhile p).length

/-- Passes over a line end, if there is one. -/
def newline (c : Cursor) : Cursor :=
  match c.rest with
  | '\r' :: '\n' :: rest => ⟨rest, c.index + 2, c.line + 1, 0⟩
  | ch :: rest => if isBreak ch then ⟨rest, c.index + ch.utf8Size, c.line + 1, 0⟩ else c
  | [] => c

/-- The beginning of the next line, unless this is the beginning of one. -/
def endLine (c : Cursor) : Cursor :=
  if c.column = 0 then c else { c with line := c.line + 1, column := 0 }

/-- Whether three dots or three hyphens stand alone at the beginning of the line. -/
def atMarker (c : Cursor) (mark : Char) : Bool :=
  c.column == 0 &&
    match c.rest with
    | x :: y :: z :: rest => x == mark && y == mark && z == mark && endsWord rest.head?
    | _ => false

/-- Whether a document begins or ends here. -/
def atDocumentEdge (c : Cursor) : Bool :=
  c.atMarker '-' || c.atMarker '.'

end Cursor

/-- What is read, or the flaw that shows. -/
abbrev Scan (α : Type) := Except Fault α

/-- A flaw shows here, while something is being read that began at `start`. -/
def Cursor.fail {α : Type} (c : Cursor) (task : Task) (start : Place) (flaw : Flaw) : Scan α :=
  .error (.malformed flaw c.place (some (task, start)))

/-! ## Gaps -/

/-- What stands between two words: blanks, or line ends with blanks around them. -/
structure Gap where
  blanks : List Char
  breaks : List Char

namespace Gap

/-- Line ends are folded: one is a space, and of several the first is dropped. -/
def text (gap : Gap) : List Char :=
  match gap.breaks with
  | [] => gap.blanks
  | first :: more =>
    if first = '\n' then
      match more with
      | [] => [' ']
      | more => more
    else first :: more

end Gap

/-- Reads a gap. A tab may not stand before column `least` of a new line; then the result is its
place. Blanks and line ends read so far stand last first. -/
def scanGap (least : Nat) (blanks breaks : List Char) (index line column : Nat) :
    List Char → Except Place (Gap × Cursor)
  | [] => .ok (⟨blanks.reverse, breaks.reverse⟩, ⟨[], index, line, column⟩)
  | '\r' :: '\n' :: rest => scanGap least [] ('\n' :: breaks) (index + 2) (line + 1) 0 rest
  | c :: rest =>
    if isBlank c then
      if breaks.isEmpty then scanGap least (c :: blanks) [] (index + 1) line (column + 1) rest
      else if c = '\t' ∧ column < least then .error ⟨line, column⟩
      else scanGap least [] breaks (index + 1) line (column + 1) rest
    else if isBreak c then
      scanGap least [] (breakChar c :: breaks) (index + c.utf8Size) (line + 1) 0 rest
    else .ok (⟨blanks.reverse, breaks.reverse⟩, ⟨c :: rest, index, line, column⟩)

/-- Reads a gap at a cursor, inside a scalar that began at `start`. -/
def Cursor.gap (c : Cursor) (least : Nat) (start : Place) : Scan (Gap × Cursor) :=
  (scanGap least [] [] c.index c.line c.column c.rest).mapError fun tab =>
    .malformed .tabInPlain tab (some (.plain, start))

/-- Passes over what may stand before a token: blanks, comments and line ends, and at the beginning
of a line a byte order mark, which takes a column. Tabs count as blanks only if `tabs` holds, and
behind a line end only if `tabsBehind` holds. The result tells whether a line end was among them. -/
def scanMargin (tabs tabsBehind comment broken : Bool) (index line column : Nat) :
    List Char → Bool × Cursor
  | [] => (broken, ⟨[], index, line, column⟩)
  | '\r' :: '\n' :: rest =>
    scanMargin tabsBehind tabsBehind false true (index + 2) (line + 1) 0 rest
  | c :: rest =>
    let next := index + c.utf8Size
    if isBreak c then scanMargin tabsBehind tabsBehind false true next (line + 1) 0 rest
    else if comment || c == ' ' || c == '\t' && tabs || c == '\uFEFF' && column == 0 then
      scanMargin tabs tabsBehind comment broken next line (column + 1) rest
    else if c == '#' then
      scanMargin tabs tabsBehind true broken next line (column + 1) rest
    else (broken, ⟨c :: rest, index, line, column⟩)

/-- Passes over what may stand before a token. -/
def Cursor.margin (c : Cursor) (tabs tabsBehind : Bool) : Bool × Cursor :=
  scanMargin tabs tabsBehind false false c.index c.line c.column c.rest

end ComponentRules.Yaml
