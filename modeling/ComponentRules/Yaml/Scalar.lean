import ComponentRules.Yaml.Cursor

/-!
# YAML scalars

The text of a scalar in each of its forms. Words are joined over line ends; only a literal block
keeps its lines.

* `Cursor.quoted`: between single or double quotes.
* `Cursor.plain`: without quotes.
* `Cursor.block`: an indented block below a header, literal or folded.
-/

namespace ComponentRules.Yaml

/-! ## Quoted scalars -/

/-- Why the characters of a line end inside quotes. -/
inductive LineEnd
  /-- A blank, a line end or the end of the text follows. -/
  | gap
  /-- The closing quote was passed. -/
  | quote
  /-- A line end follows that was escaped. -/
  | escaped
  deriving DecidableEq

/-- The characters of a line: what they stand for, how many they are and why they end. -/
structure Segment where
  text : List Char
  size : Nat
  fin : LineEnd

/-- The same segment with a character in front, which is written with so many. -/
def Segment.cons (c : Char) (size : Nat) (s : Segment) : Segment :=
  { s with text := c :: s.text, size := s.size + size }

/-- A flaw behind so many characters of a line. -/
structure Slip where
  flaw : Flaw
  offset : Nat

/-- What follows some characters, with the character that they stand for in front. -/
def Segment.behind (c : Char) (size : Nat) : Except Slip Segment → Except Slip Segment
  | .ok s => .ok (s.cons c size)
  | .error slip => .error { slip with offset := slip.offset + size }

def hexValue? (c : Char) : Option Nat :=
  if '0' ≤ c ∧ c ≤ '9' then some (c.toNat - '0'.toNat)
  else if 'a' ≤ c ∧ c ≤ 'f' then some (c.toNat - 'a'.toNat + 10)
  else if 'A' ≤ c ∧ c ≤ 'F' then some (c.toNat - 'A'.toNat + 10)
  else none

/-- The character with a code in base 16. -/
def hexChar (digits : List Char) : Except Flaw Char :=
  match digits.foldlM (fun n c => (hexValue? c).map (n * 16 + ·)) 0 with
  | none => .error .noHexDigit
  | some n =>
    if n < 0xD800 ∨ (0xDFFF < n ∧ n ≤ 0x10FFFF) then .ok (Char.ofNat n) else .error .badCode

/-- What follows a backslash, a letter and these digits, with the character in front. -/
def Segment.behindCode (digits : List Char) (rest : Except Slip Segment) : Except Slip Segment :=
  match hexChar digits with
  | .ok c => behind c (digits.length + 2) rest
  | .error flaw => .error ⟨flaw, 2⟩

/-- The character that a one-letter escape stands for. -/
def escaped? : Char → Option Char
  | '0' => some '\x00'
  | 'a' => some '\x07'
  | 'b' => some '\x08'
  | 't' => some '\t'
  | '\t' => some '\t'
  | 'n' => some '\n'
  | 'v' => some '\x0b'
  | 'f' => some '\x0c'
  | 'r' => some '\r'
  | 'e' => some '\x1b'
  | ' ' => some ' '
  | '"' => some '"'
  | '/' => some '/'
  | '\\' => some '\\'
  | 'N' => some '\u0085'
  | '_' => some '\u00a0'
  | 'L' => some '\u2028'
  | 'P' => some '\u2029'
  | _ => none

/-- The characters of a line between single quotes. Two quotes stand for one. -/
def singleSegment : List Char → Segment
  | [] => ⟨[], 0, .gap⟩
  | '\'' :: '\'' :: cs => (singleSegment cs).cons '\'' 2
  | c :: cs =>
    if endsWord (some c) then ⟨[], 0, .gap⟩
    else if c = '\'' then ⟨[], 1, .quote⟩
    else (singleSegment cs).cons c 1

/-- The characters of a line between double quotes. -/
def doubleSegment : List Char → Except Slip Segment
  | [] => .ok ⟨[], 0, .gap⟩
  | '\\' :: 'x' :: a :: b :: cs => Segment.behindCode [a, b] (doubleSegment cs)
  | '\\' :: 'u' :: a :: b :: c :: d :: cs => Segment.behindCode [a, b, c, d] (doubleSegment cs)
  | '\\' :: 'U' :: a :: b :: c :: d :: e :: f :: g :: h :: cs =>
    Segment.behindCode [a, b, c, d, e, f, g, h] (doubleSegment cs)
  | '\\' :: e :: cs =>
    if isBreak e then .ok ⟨[], 1, .escaped⟩
    else match escaped? e with
      | some c => Segment.behind c 2 (doubleSegment cs)
      | none =>
        if ['x', 'u', 'U'].contains e then .error ⟨.noHexDigit, 2⟩ else .error ⟨.unknownEscape, 0⟩
  | c :: cs =>
    if endsWord (some c) then .ok ⟨[], 0, .gap⟩
    else if c = '"' then .ok ⟨[], 1, .quote⟩
    else if c = '\\' then .error ⟨.unknownEscape, 0⟩
    else Segment.behind c 1 (doubleSegment cs)

/-- The characters of a line inside quotes. -/
def Cursor.segment (c : Cursor) (single : Bool) (start : Place) : Scan Segment :=
  if single then .ok (singleSegment c.rest)
  else match doubleSegment c.rest with
    | .ok s => .ok s
    | .error slip => (c.advance slip.offset).fail .escape start slip.flaw

/-- The text up to the closing quote, line by line; `fuel` bounds the number of lines. -/
def scanQuoted (single : Bool) (start : Place) : Nat → Cursor → Scan (List Char × Cursor)
  | 0, _ => .error .unfinished
  | fuel + 1, c =>
    if c.atDocumentEdge then c.fail .quoted start .edgeInQuotes
    else if c.rest.isEmpty then c.fail .quoted start .endInQuotes
    else do
      let s ← c.segment single start
      let c := c.advance s.size
      match s.fin with
      | .quote => pure (s.text, c)
      | .gap =>
        let (gap, c) ← c.gap 0 start
        let (text, c) ← scanQuoted single start fuel c
        pure (s.text ++ gap.text ++ text, c)
      | .escaped =>
        let (gap, c) ← c.gap 0 start
        let (text, c) ← scanQuoted single start fuel c
        pure (s.text ++ gap.breaks.tail ++ text, c)

/-- A quoted scalar at its opening quote. -/
def Cursor.quoted (c : Cursor) (single : Bool) : Scan (List Char × Cursor) :=
  scanQuoted single c.place (c.rest.length + 1) (c.advance 1)

/-! ## Plain scalars -/

/-- The characters that separate or enclose the items of flow collections. -/
def isFlowIndicator (c : Char) : Bool :=
  c == ',' || c == '[' || c == ']' || c == '\x7b' || c == '\x7d'

/-- The characters of a line of a plain scalar. Inside flow collections a colon may not stand right
before an indicator; then the result is the number of characters before it. -/
def plainSegment (flow : Bool) : List Char → Except Nat (List Char)
  | [] => .ok []
  | c :: cs =>
    let next := cs.head?
    if endsWord (some c) || c == ':' && endsWord next || flow && isFlowIndicator c then
      .ok []
    else if flow && c == ':' && next.any fun d => d == '?' || isFlowIndicator d then .error 0
    else match plainSegment flow cs with
      | .ok word => .ok (c :: word)
      | .error n => .error (n + 1)

/-- The next word of a plain scalar. -/
def Cursor.plainWord (c : Cursor) (flow : Bool) (start : Place) : Scan (List Char) :=
  match plainSegment flow c.rest with
  | .ok word => .ok word
  | .error n => (c.advance n).fail .plain start .colonInPlain

/-- The text of a plain scalar behind a gap. The result tells whether the scalar is followed by a
line end; `fuel` bounds the number of words. -/
def scanPlain (flow : Bool) (least : Nat) (start : Place) :
    Nat → Gap → Cursor → Scan (List Char × Bool × Cursor)
  | 0, _, _ => .error .unfinished
  | fuel + 1, gap, c =>
    let fin : Scan (List Char × Bool × Cursor) := .ok ([], !gap.breaks.isEmpty, c)
    if c.atDocumentEdge || c.next? == some '#' then fin
    else do
      let word ← c.plainWord flow start
      if word.isEmpty then fin
      else
        let c := c.advance word.length
        if !c.rest.isEmpty && endsWord c.next? then
          let (behind, c) ← c.gap least start
          if !flow && c.column < least then pure (gap.text ++ word, !behind.breaks.isEmpty, c)
          else
            let (text, broken, c) ← scanPlain flow least start fuel behind c
            pure (gap.text ++ word ++ text, broken, c)
        else pure (gap.text ++ word, false, c)

/-- A plain scalar. Outside flow collections its lines start at column `least` or behind it. -/
def Cursor.plain (c : Cursor) (flow : Bool) (least : Nat) :
    Scan (List Char × Bool × Cursor) :=
  scanPlain flow least c.place (c.rest.length + 1) ⟨[], []⟩ c

/-! ## Block scalars -/

/-- What is kept of the line ends at the end of a block. -/
inductive Chomping
  | strip
  | clip
  | keep

/-- The empty lines of a block, and the widest indentation among them. A block whose indentation is
known to be `indent` has lines that start there; a tab may not stand before that, and if one does,
the result is its place. -/
def scanEmptyLines (indent : Option Nat) (most : Nat) (breaks : List Char)
    (index line column : Nat) : List Char → Except Place (List Char × Nat × Cursor)
  | [] => .ok (breaks.reverse, max most column, ⟨[], index, line, column⟩)
  | '\r' :: '\n' :: rest =>
    scanEmptyLines indent (max most column) ('\n' :: breaks) (index + 2) (line + 1) 0 rest
  | c :: rest =>
    let before := indent.all fun n => column < n
    if c = ' ' ∧ before then
      scanEmptyLines indent most breaks (index + 1) line (column + 1) rest
    else if c = '\t' ∧ before then .error ⟨line, column⟩
    else if isBreak c then
      scanEmptyLines indent (max most column) (breakChar c :: breaks) (index + c.utf8Size)
        (line + 1) 0 rest
    else .ok (breaks.reverse, max most column, ⟨c :: rest, index, line, column⟩)

/-- The empty lines at a cursor, inside a block that began at `start`. -/
def Cursor.emptyLines (c : Cursor) (indent : Option Nat) (start : Place) :
    Scan (List Char × Nat × Cursor) :=
  (scanEmptyLines indent 0 [] c.index c.line c.column c.rest).mapError fun tab =>
    .malformed .tabInIndentation tab (some (.block, start))

/-- The line end that comes next, if there is one. -/
def Cursor.lineEnd (c : Cursor) : List Char :=
  match c.next? with
  | some ch => if isBreak ch then [breakChar ch] else []
  | none => []

/-- The lines of a block from the first that is not empty; `fuel` bounds their number. Between two
lines stand `first`, the line end of the one, and `more`, those of the empty lines; a folded block
has a space for a single line end between two lines that do not start with a blank. -/
def scanBlock (literal : Bool) (indent : Nat) (chomping : Chomping) (start : Place) :
    Nat → Bool → List Char → List Char → Cursor → Scan (List Char × Cursor)
  | 0, _, _, _, _ => .error .unfinished
  | fuel + 1, blankBefore, first, more, c =>
    if c.column = indent ∧ !c.rest.isEmpty then do
      let blank := c.next?.any isBlank
      let joined :=
        if !literal && first == ['\n'] && !blankBefore && !blank then
          if more.isEmpty then [' '] else more
        else first ++ more
      let content := c.takeWhile fun ch => !isBreak ch
      let c := c.dropWhile fun ch => !isBreak ch
      let (empty, _, behind) ← c.newline.emptyLines (some indent) start
      let (text, c) ← scanBlock literal indent chomping start fuel blank c.lineEnd empty behind
      pure (joined ++ content ++ text, c)
    else
      let ending := match chomping with
        | .strip => []
        | .clip => first
        | .keep => first ++ more
      .ok (ending, c)

/-- A digit of a block header: how much deeper the block is indented. -/
def digit? (c : Char) : Option Nat :=
  if c.isDigit then some (c.toNat - '0'.toNat) else none

def chomping? : Char → Option Chomping
  | '+' => some .keep
  | '-' => some .strip
  | _ => none

/-- The header of a block: a sign and a digit in any order. If the digit is zero, the result is the
number of characters before it. -/
def blockHeader (rest : List Char) : Except Nat (Chomping × Option Nat × Nat) :=
  let first := rest.head?
  let second := rest.tail.head?
  match first.bind chomping?, first.bind digit? with
  | some chomping, _ =>
    match second.bind digit? with
    | some 0 => .error 1
    | some n => .ok (chomping, some n, 2)
    | none => .ok (chomping, none, 1)
  | none, some 0 => .error 0
  | none, some n =>
    match second.bind chomping? with
    | some chomping => .ok (chomping, some n, 2)
    | none => .ok (.clip, some n, 1)
  | none, none => .ok (.clip, none, 0)

/-- A block scalar at its indicator, inside a collection of a given indentation. -/
def Cursor.block (c : Cursor) (literal : Bool) (outer : Option Nat) :
    Scan (List Char × Cursor) := do
  let start := c.place
  let c := c.advance 1
  let (chomping, increment, size) ← match blockHeader c.rest with
    | .ok header => pure header
    | .error n => (c.advance n).fail .block start .zeroIndentation
  let c := (c.advance size).dropWhile isBlank
  let c := if c.next? == some '#' then c.dropWhile fun ch => !isBreak ch else c
  if !(c.next?.all isBreak) then c.fail .block start .unendedHeader
  else
    let known := increment.map fun n => outer.getD 0 + n
    let (empty, most, behind) ← c.newline.emptyLines known start
    let least := match outer with
      | some n => n + 1
      | none => 1
    let indent := known.getD (max most least)
    scanBlock literal indent chomping start (c.rest.length + 1) false [] empty behind

end ComponentRules.Yaml
