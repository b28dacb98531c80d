import ComponentRules.Json.Value

/-!
# Writing JSON

Values are written compactly, or one item a line with two spaces for every container around it.
Either form is a `Style`.

* `Value.print`: the text of a value, in front of a given text.
* `Value.compact`, `Value.pretty`: the two forms.
-/

namespace ComponentRules.Json

/-- What is written between the tokens: before items, members and closing brackets at a depth, and
behind colons. -/
structure Style where
  gap : Nat → List Char
  afterColon : List Char

/-- Nothing between the tokens. -/
def Style.compact : Style :=
  ⟨fun _ => [], []⟩

/-- A line for each item. -/
def Style.pretty : Style :=
  ⟨fun depth => '\n' :: List.replicate (2 * depth) ' ', [' ']⟩

/-- Two digits in base 16, lower case. -/
def hexPair (n : Nat) : List Char :=
  [Nat.digitChar (n / 16), Nat.digitChar (n % 16)]

/-- A character inside a string. Only quotes, backslashes and the characters below the space are
escaped. -/
def escape (c : Char) : List Char :=
  if c = '"' then ['\\', '"']
  else if c = '\\' then ['\\', '\\']
  else if c = '\x08' then ['\\', 'b']
  else if c = '\x0c' then ['\\', 'f']
  else if c = '\n' then ['\\', 'n']
  else if c = '\r' then ['\\', 'r']
  else if c = '\t' then ['\\', 't']
  else if c.toNat < 0x20 then ['\\', 'u', '0', '0'] ++ hexPair c.toNat
  else [c]

/-- A string between quotes. -/
def printString (s : String) (rest : List Char) : List Char :=
  '"' :: (s.toList.flatMap escape ++ '"' :: rest)

namespace Value

mutual

/-- Writes a value at a depth, in front of `rest`. Empty containers stay on one line. -/
def print (style : Style) (depth : Nat) : Value → List Char → List Char
  | .null, rest => 'n' :: 'u' :: 'l' :: 'l' :: rest
  | .bool true, rest => 't' :: 'r' :: 'u' :: 'e' :: rest
  | .bool false, rest => 'f' :: 'a' :: 'l' :: 's' :: 'e' :: rest
  | .number n, rest => n.text ++ rest
  | .string s, rest => printString s rest
  | .array [], rest => '[' :: ']' :: rest
  | .array (item :: items), rest =>
    '[' :: (style.gap (depth + 1) ++
      item.print style (depth + 1) (printItems style depth items rest))
  | .object [], rest => '\x7b' :: '\x7d' :: rest
  | .object ((key, value) :: fields), rest =>
    '\x7b' :: (style.gap (depth + 1) ++ printString key (':' :: (style.afterColon ++
      value.print style (depth + 1) (printFields style depth fields rest))))

/-- Writes the items behind the first and the closing bracket. -/
def printItems (style : Style) (depth : Nat) : List Value → List Char → List Char
  | [], rest => style.gap depth ++ ']' :: rest
  | item :: items, rest =>
    ',' :: (style.gap (depth + 1) ++
      item.print style (depth + 1) (printItems style depth items rest))

/-- Writes the members behind the first and the closing brace. -/
def printFields (style : Style) (depth : Nat) :
    List (String × Value) → List Char → List Char
  | [], rest => style.gap depth ++ '\x7d' :: rest
  | (key, value) :: fields, rest =>
    ',' :: (style.gap (depth + 1) ++ printString key (':' :: (style.afterColon ++
      value.print style (depth + 1) (printFields style depth fields rest))))

end

/-- A value in one line, without blanks. -/
def compact (v : Value) : String :=
  String.ofList (v.print .compact 0 [])

/-- A value with a line for each item. -/
def pretty (v : Value) : String :=
  String.ofList (v.print .pretty 0 [])

end Value

end ComponentRules.Json
