import ComponentRules.Yaml.Node

/-!
# What YAML scalars stand for

A plain scalar without a tag is a null, a truth value, a number or else a string. Whole numbers may
be written in base 2, 8, 10 or 16; in base 10 they do not start with a zero.

* `Datum`: values, with `Datum.same` and `Datum.repeated?`.
* `Datum.ofScalar`: what a scalar stands for. Whole numbers of more than 64 bits stand for nothing
  if they fit 128 bits.
-/

namespace ComponentRules.Yaml

inductive Datum
  | null
  | bool (b : Bool)
  | integer (n : Int)
  | real (x : Real)
  | string (s : List Char)
  | sequence (items : List Datum)
  | mapping (pairs : List (Datum × Datum))

namespace Datum

mutual

/-- Equality of values. Whole and floating-point numbers are never equal, and the order of pairs
does not count. -/
def same : Datum → Datum → Bool
  | .null, .null => true
  | .bool a, .bool b => a == b
  | .integer m, .integer n => m == n
  | .real x, .real y => x.same y
  | .string s, .string t => s == t
  | .sequence a, .sequence b => sameItems a b
  | .mapping a, .mapping b => a.length == b.length && within a b
  | _, _ => false

def sameItems : List Datum → List Datum → Bool
  | [], [] => true
  | a :: as, b :: bs => a.same b && sameItems as bs
  | _, _ => false

/-- Whether every pair of the one has its equal in the other. -/
def within : List (Datum × Datum) → List (Datum × Datum) → Bool
  | [], _ => true
  | (k, a) :: rest, other =>
    (other.any fun (l, b) => k.same l && a.same b) && within rest other

end

/-- What is found in place of another value. -/
def found : Datum → Found
  | .null => .null
  | .bool b => .bool b
  | .integer n => .integer n
  | .real x => .real x
  | .string s => .string (String.ofList s)
  | .sequence _ => .sequence
  | .mapping _ => .mapping

mutual

/-- The first key that comes up again in its mapping, if one does. A key is looked at before its
value. -/
def repeated? : Datum → Option Found
  | .sequence items => repeatedInItems? items
  | .mapping pairs => repeatedInPairs? [] pairs
  | _ => none

def repeatedInItems? : List Datum → Option Found
  | [] => none
  | item :: items => item.repeated?.or (repeatedInItems? items)

/-- The same for pairs behind some keys. -/
def repeatedInPairs? (keys : List Datum) : List (Datum × Datum) → Option Found
  | [] => none
  | (key, value) :: pairs =>
    let earlier := (keys.find? fun k => k.same key).map found
    key.repeated?.or (earlier.or (value.repeated?.or (repeatedInPairs? (keys ++ [key]) pairs)))

end

end Datum

/-! ## Whole numbers -/

/-- The value of a digit in a base up to 16. -/
def digitIn? (base : Nat) (c : Char) : Option Nat :=
  (hexValue? c).filter (· < base)

/-- The value of some digits in a base; there must be one. -/
def digitsIn? (base : Nat) (digits : List Char) : Option Nat :=
  if digits.isEmpty then none
  else digits.foldlM (fun n c => (digitIn? base c).map (n * base + ·)) 0

/-- Whether a number in base 10 starts with a zero it does not need. -/
def hasLeadingZero (digits : List Char) : Bool :=
  match digits with
  | '0' :: rest => !rest.isEmpty && rest.all Char.isDigit
  | _ => false

/-- A whole number without sign, in any base. -/
def natural? (digits : List Char) : Option Nat :=
  match digits with
  | '0' :: 'x' :: rest => digitsIn? 16 rest
  | '0' :: 'o' :: rest => digitsIn? 8 rest
  | '0' :: 'b' :: rest => digitsIn? 2 rest
  | digits => if hasLeadingZero digits then none else digitsIn? 10 digits

/-- A whole number, in any base. -/
def integer? (text : List Char) : Option Int :=
  match text with
  | '+' :: digits => (natural? digits).map Int.ofNat
  | '-' :: digits => (natural? digits).map fun n => -(n : Int)
  | digits => (natural? digits).map Int.ofNat

/-! ## Floating-point numbers -/

/-- An exponent behind its letter: a sign, perhaps, and digits. -/
def exponent? (text : List Char) : Option Int :=
  match text with
  | '+' :: digits => (digitsIn? 10 digits).map Int.ofNat
  | '-' :: digits => (digitsIn? 10 digits).map fun n => -(n : Int)
  | digits => (digitsIn? 10 digits).map Int.ofNat

/-- The number nearest to `± digits · 10 ^ exponent`, if it is finite. -/
def nearest? (negative : Bool) (digits : Nat) (exponent : Int) : Option Binary64 :=
  let places : Int := (Nat.toDigits 10 digits).length
  if digits = 0 ∨ places + exponent < -400 then some (.zero negative)
  else if 400 < places + exponent then none
  else if 0 ≤ exponent then Binary64.ofRatio negative (digits * Nat.pow 10 exponent.toNat) 1
  else Binary64.ofRatio negative digits (Nat.pow 10 (-exponent).toNat)

/-- A decimal without sign: digits with a point among them or around them, and an exponent. -/
def decimal? (negative : Bool) (text : List Char) : Option Binary64 := do
  let whole := text.takeWhile Char.isDigit
  let rest := text.dropWhile Char.isDigit
  let (fraction, rest) := match rest with
    | '.' :: rest => (rest.takeWhile Char.isDigit, rest.dropWhile Char.isDigit)
    | rest => ([], rest)
  if whole.isEmpty && fraction.isEmpty then none
  else
    let exponent ← match rest with
      | [] => some 0
      | c :: rest => if c = 'e' ∨ c = 'E' then exponent? rest else none
    let digits := Nat.ofDigitChars 10 (whole ++ fraction) 0
    nearest? negative digits (exponent - fraction.length)

/-- A floating-point number. A number too large to be finite is none. -/
def real? (text : List Char) : Option Real :=
  let isInfinity (text : List Char) : Bool :=
    [".inf".toList, ".Inf".toList, ".INF".toList].contains text
  if [".nan".toList, ".NaN".toList, ".NAN".toList].contains text then some .undefined
  else match text with
    | '+' :: rest =>
      if isInfinity rest then some (.infinite false) else (decimal? false rest).map .finite
    | '-' :: rest =>
      if isInfinity rest then some (.infinite true) else (decimal? true rest).map .finite
    | rest =>
      if isInfinity rest then some (.infinite false) else (decimal? false rest).map .finite

/-! ## Scalars -/

/-- The spellings of null. -/
def isNull (text : List Char) : Bool :=
  ["null".toList, "Null".toList, "NULL".toList, ['~']].contains text

def bool? (text : List Char) : Option Bool :=
  if ["true".toList, "True".toList, "TRUE".toList].contains text then some true
  else if ["false".toList, "False".toList, "FALSE".toList].contains text then some false
  else none

/-- A whole number of 64 bits; `none` if it has more than 128. -/
def Datum.ofInteger? (expected : Shape) (n : Int) : Option (Except Misfit Datum) :=
  if fits 64 n then some (.ok (.integer n))
  else if fits 128 n then some (.error (.wrongType (.integer n) expected))
  else none

/-- What a plain scalar without a tag stands for. -/
def Datum.ofPlain (expected : Shape) (text : List Char) : Except Misfit Datum :=
  let number : Datum := match real? text with
    | some x => .real x
    | none => .string text
  if text.isEmpty || isNull text then .ok .null
  else match bool? text with
    | some b => .ok (.bool b)
    | none =>
      match integer? text with
      | some n => (ofInteger? expected n).getD (.ok number)
      | none =>
        if hasLeadingZero (match text with | '+' :: rest | '-' :: rest | rest => rest) then
          .ok (.string text)
        else .ok number

/-- The tags that say how a scalar is read. -/
def coreTag (name : String) : List Char :=
  ("tag:yaml.org,2002:" ++ name).toList

/-- What a scalar with a tag stands for. A tag that names a type demands that the text fits; one of
the document's own says nothing. -/
def Datum.ofTagged (expected : Shape) (tag : Uri) (plain : Bool) (text : List Char) :
    Except Misfit Datum :=
  let only (d : Option Datum) (shape : Shape) : Except Misfit Datum := match d with
    | some d => .ok d
    | none => .error (.wrongText (String.ofList text) shape)
  if tag.isLocal then if plain then ofPlain expected text else .ok (.string text)
  else if tag.text = coreTag "bool" then only ((bool? text).map .bool) .bool
  else if tag.text = coreTag "int" then
    ((integer? text).bind (ofInteger? expected)).getD (only none .integer)
  else if tag.text = coreTag "float" then only ((real? text).map .real) .real
  else if tag.text = coreTag "null" then only (if isNull text then some .null else none) .null
  else .ok (.string text)

/-- What a scalar stands for, where something is expected. -/
def Datum.ofScalar (expected : Shape) (tag : Option Uri) (plain : Bool) (text : List Char) :
    Except Misfit Datum :=
  match tag with
  | some tag => ofTagged expected tag plain text
  | none => if plain then ofPlain expected text else .ok (.string text)

end ComponentRules.Yaml
