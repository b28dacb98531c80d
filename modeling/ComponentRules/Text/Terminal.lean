/-!
# Texts that a terminal would obey

A terminal prints most characters and obeys some: control characters, and what stands behind an
escape character up to the end of a command. A text that no terminal reads is written without them.

* `Mode`: where in a command a text stands, with `Mode.next` and `Mode.prints`.
* `printed`: what a terminal would print of a text.
-/

namespace ComponentRules.Text.Terminal

/-- The control characters that arrange a text: tabs and the ends of lines and pages. -/
def isLayout (c : Char) : Bool :=
  c == '\t' || c == '\n' || c == '\x0c' || c == '\r'

/-- Whether a terminal prints a character that stands outside all commands. -/
def isPrinted (c : Char) : Bool :=
  0x20 ≤ c.toNat && c.toNat != 0x7F || isLayout c

/-- Where a text stands. -/
inductive Mode
  /-- Outside all commands. -/
  | text
  /-- Behind an escape character. -/
  | escape
  /-- The same, but only one more character can follow. -/
  | escapeEnd
  /-- Inside a command with numbers, which ends with a letter. -/
  | numbered
  /-- Before the numbers of a command for the device. -/
  | device
  /-- Inside the numbers of a command for the device. -/
  | deviceNumbers
  /-- Behind the numbers of a command for the device. -/
  | deviceEnd
  /-- Inside a text that is not printed. -/
  | hidden
  /-- Inside a title, which a bell ends. -/
  | title
  deriving DecidableEq, Repr

namespace Mode

/-- Whether a character lies between two others. -/
def within (first last c : Char) : Bool :=
  first ≤ c && c ≤ last

/-- The mode behind a character that is not printed. An escape character begins a command anywhere;
a hidden text ends at the byte `9C`. -/
def next (mode : Mode) (c : Char) : Mode :=
  if c = '\x1b' then .escape
  else if c = '\x18' ∨ c = '\x1a' then .text
  else match mode with
    | .text => .text
    | .escape =>
      if c = '[' then .numbered
      else if c = ']' then .title
      else if c = 'P' then .device
      else if c = 'X' ∨ c = '^' ∨ c = '_' then .hidden
      else if within ' ' '/' c then .escapeEnd
      else if within '0' '~' c then .text
      else .escape
    | .escapeEnd => if within '0' '~' c then .text else .escapeEnd
    | .numbered => if within '@' '~' c then .text else .numbered
    | .device =>
      if within '@' '~' c then .hidden
      else if within ' ' '/' c then .deviceEnd
      else if within '0' '?' c then .deviceNumbers
      else .device
    | .deviceNumbers =>
      if within '<' '~' c then .hidden
      else if within ' ' '/' c then .deviceEnd
      else .deviceNumbers
    | .deviceEnd => if within '0' '~' c then .hidden else .deviceEnd
    | .hidden => if (String.utf8EncodeChar c).contains 0x9C then .text else .hidden
    | .title => if c = '\x07' then .text else .title

/-- Whether a character is printed. A short command ends before a tab or the end of a line. -/
def prints (mode : Mode) (c : Char) : Bool :=
  match mode with
  | .text => isPrinted c
  | .escape | .escapeEnd | .numbered => isLayout c
  | _ => false

end Mode

/-- What a terminal prints of a text from some mode on. -/
def printedFrom (mode : Mode) : List Char → List Char
  | [] => []
  | c :: cs =>
    if mode.prints c then c :: printedFrom .text cs else printedFrom (mode.next c) cs

/-- A text without what a terminal would obey. -/
def printed (s : String) : String :=
  String.ofList (printedFrom .text s.toList)

end ComponentRules.Text.Terminal
