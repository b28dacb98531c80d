import ComponentRules.Yaml.Scalar

/-!
# YAML tags and directives

A tag is written in full, or as a handle and a suffix; a directive says what a handle stands for.
Percent signs in it introduce bytes in base 16, which together should make characters.

* `Uri`: a text with its escapes decoded.
* `Cursor.tag`: a tag, as handle and suffix.
* `Cursor.directive`: a directive.
-/

namespace ComponentRules.Yaml

/-- A text whose escaped bytes were decoded. It is not legible if they make no characters. -/
structure Uri where
  text : List Char
  legible : Bool
  deriving DecidableEq

namespace Uri

def ofText (text : List Char) : Uri :=
  ⟨text, true⟩

def append (a b : Uri) : Uri :=
  ⟨a.text ++ b.text, a.legible && b.legible⟩

/-- Whether a tag is a document's own, and not one that has a meaning everywhere. -/
def isLocal (u : Uri) : Bool :=
  u.text.head? == some '!'

end Uri

/-- Bytes of a character that are still to come, and its code as far as it is known. The least code
that needs so many bytes tells whether the escapes are as short as can be. -/
structure PendingChar where
  left : Nat
  code : Nat
  least : Nat

/-- The first byte of a character. -/
def firstByte? (n : Nat) : Option PendingChar :=
  if n < 0x80 then some ⟨0, n, 0⟩
  else if n / 0x20 = 0x6 then some ⟨1, n % 0x20, 0x80⟩
  else if n / 0x10 = 0xE then some ⟨2, n % 0x10, 0x800⟩
  else if n / 0x8 = 0x1E then some ⟨3, n % 0x8, 0x10000⟩
  else none

/-- A further byte of a character. -/
def nextByte? (p : PendingChar) (n : Nat) : Option PendingChar :=
  if n / 0x40 = 0x2 then some ⟨p.left - 1, p.code * 0x40 + n % 0x40, p.least⟩ else none

/-- The character of all its bytes in front of a text. A zero character ends the text. -/
def PendingChar.push (p : PendingChar) (u : Uri) : Uri :=
  if p.least = 0 ∧ p.code = 0 then .ofText []
  else if p.least ≤ p.code ∧ (p.code < 0xD800 ∨ (0xDFFF < p.code ∧ p.code ≤ 0x10FFFF)) then
    ⟨Char.ofNat p.code :: u.text, u.legible⟩
  else ⟨'\uFFFD' :: u.text, false⟩

/-- The characters that may stand in a tag; the last three only where nothing encloses it. -/
def isUriChar (everywhere : Bool) (c : Char) : Bool :=
  isWordChar c || [';', '/', '?', ':', '@', '&', '=', '+', '$', '.', '!', '~', '*', '\'', '(', ')',
    '%'].contains c || everywhere && [',', '[', ']'].contains c

/-- The byte behind a percent sign. -/
def octet? (a b : Char) : Option Nat := do
  pure ((← hexValue? a) * 16 + (← hexValue? b))

/-- The bytes of a character with one more. -/
def addOctet (n : Nat) : Option PendingChar → Except Slip PendingChar
  | none =>
    match firstByte? n with
    | some p => .ok p
    | none => .error ⟨.badLeadingOctet, 0⟩
  | some p =>
    match nextByte? p n with
    | some p => .ok p
    | none => .error ⟨.badTrailingOctet, 0⟩

/-- What follows so many characters, changed by what they stand for. -/
def behindUri (size : Nat) (change : Uri → Uri) :
    Except Slip (Uri × Nat) → Except Slip (Uri × Nat)
  | .ok (u, n) => .ok (change u, n + size)
  | .error slip => .error { slip with offset := slip.offset + size }

/-- The longest text of such characters, and how many it takes to write. -/
def scanUri (everywhere : Bool) :
    Option PendingChar → List Char → Except Slip (Uri × Nat)
  | pending, '%' :: a :: b :: cs =>
    match octet? a b with
    | none => .error ⟨.noOctet, 0⟩
    | some n =>
      match addOctet n pending with
      | .error slip => .error slip
      | .ok p =>
        if p.left = 0 then behindUri 3 p.push (scanUri everywhere none cs)
        else behindUri 3 id (scanUri everywhere (some p) cs)
  | some _, _ => .error ⟨.noOctet, 0⟩
  | none, c :: cs =>
    if c = '%' then .error ⟨.noOctet, 0⟩
    else if isUriChar everywhere c then
      behindUri 1 (fun u => ⟨c :: u.text, u.legible⟩) (scanUri everywhere none cs)
    else .ok (⟨[], true⟩, 0)
  | none, [] => .ok (⟨[], true⟩, 0)

/-- A text of such characters that may be empty. -/
def Cursor.uriPart (c : Cursor) (everywhere : Bool) (task : Task) (start : Place) :
    Scan (Uri × Cursor) :=
  match scanUri everywhere none c.rest with
  | .ok (u, size) => .ok (u, c.advance size)
  | .error slip => (c.advance slip.offset).fail task start slip.flaw

/-- A text of such characters; it is not empty. -/
def Cursor.uri (c : Cursor) (everywhere : Bool) (task : Task) (start : Place) :
    Scan (Uri × Cursor) := do
  let (u, behind) ← c.uriPart everywhere task start
  if behind.place = c.place then c.fail task start .noUri else pure (u, behind)

/-- A handle: an exclamation mark, and behind it perhaps a word and another one. In a directive the
second one may not be missing behind a word. -/
def Cursor.handle (c : Cursor) (directive : Bool) (start : Place) : Scan (List Char × Cursor) :=
  if c.next? ≠ some '!' then
    c.fail (if directive then .directiveHandle else .tag) start .noHandle
  else
    let inner := c.advance 1
    let word := inner.takeWhile isWordChar
    let behind := inner.dropWhile isWordChar
    if behind.next? = some '!' then .ok ('!' :: word ++ ['!'], behind.advance 1)
    else if directive && !word.isEmpty then behind.fail .directiveHandleEnd start .noHandle
    else .ok ('!' :: word, behind)

/-! ## Tags -/

/-- A tag: a handle, empty if the suffix says all, and a suffix. -/
structure Tag where
  handle : List Char
  suffix : Uri

/-- A tag without what has to stand behind it. -/
def Cursor.openTag (c : Cursor) : Scan (Tag × Cursor) := do
  let start := c.place
  if c.second? = some '<' then
    let (u, c) ← (c.advance 2).uri true .tagUri start
    if c.next? = some '>' then pure (⟨[], u⟩, c.advance 1)
    else c.fail .tag start .noClosingBracket
  else
    let (handle, c) ← c.handle false start
    if 2 ≤ handle.length ∧ handle.getLast? = some '!' then
      let (u, c) ← c.uri false .tagUri start
      pure (⟨handle, u⟩, c)
    else
      let (u, c) ← c.uriPart false .tagUri start
      let suffix := (Uri.ofText handle.tail).append u
      pure (if suffix.text.isEmpty then ⟨[], ⟨['!'], suffix.legible⟩⟩ else ⟨['!'], suffix⟩, c)

/-- A tag at its exclamation mark. Inside flow collections a comma may end it. -/
def Cursor.tag (c : Cursor) (flow : Bool) : Scan (Tag × Cursor) := do
  let (tag, behind) ← c.openTag
  if endsWord behind.next? || flow && behind.next? == some ',' then pure (tag, behind)
  else behind.fail .tag c.place .noBlankOrBreak

/-! ## Directives -/

inductive Directive
  | version (major minor : Nat)
  | tag (handle : List Char) (stem : Uri)

/-- The most digits of a part of a version number. -/
def maxVersionSize : Nat := 9

/-- A part of a version number. -/
def Cursor.versionPart (c : Cursor) (start : Place) : Scan (Nat × Cursor) :=
  let digits := c.takeWhile Char.isDigit
  if maxVersionSize < digits.length then
    (c.advance maxVersionSize).fail .versionDirective start .longVersion
  else if digits.isEmpty then c.fail .versionDirective start .noVersion
  else .ok (Nat.ofDigitChars 10 digits 0, c.dropWhile Char.isDigit)

/-- A version number. -/
def Cursor.version (c : Cursor) (start : Place) : Scan (Directive × Cursor) := do
  let (major, c) ← c.versionPart start
  if c.next? ≠ some '.' then c.fail .versionDirective start .versionWithoutPoint
  else
    let (minor, c) ← (c.advance 1).versionPart start
    pure (.version major minor, c)

/-- A handle and what it stands for. -/
def Cursor.definition (c : Cursor) (start : Place) : Scan (Directive × Cursor) := do
  let (handle, c) ← c.handle true start
  if !(c.next?.any isBlank) then c.fail .tagDirective start .noBlank
  else
    let (stem, c) ← (c.dropWhile isBlank).uri true .directiveUri start
    if endsWord c.next? then pure (.tag handle stem, c)
    else c.fail .tagDirective start .noBlankOrBreak

/-- A directive at its percent sign, with the rest of its line. -/
def Cursor.directive (c : Cursor) : Scan (Directive × Cursor) := do
  let start := c.place
  let inner := c.advance 1
  let name := inner.takeWhile isWordChar
  let c := inner.dropWhile isWordChar
  if name.isEmpty then c.fail .directive start .namelessDirective
  else if !endsWord c.next? then c.fail .directive start .unendedDirectiveName
  else
    let (directive, c) ←
      if name = ['Y', 'A', 'M', 'L'] then (c.dropWhile isBlank).version start
      else if name = ['T', 'A', 'G'] then (c.dropWhile isBlank).definition start
      else c.fail .directive start .unknownDirective
    let c := c.dropWhile isBlank
    let c := if c.next? == some '#' then c.dropWhile fun ch => !isBreak ch else c
    if c.next?.all isBreak then pure (directive, c.newline)
    else c.fail .directive start .unendedHeader

end ComponentRules.Yaml
