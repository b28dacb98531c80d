import ComponentRules.Number.Shortest

/-!
# JSON numbers

* `Number`: whole numbers of 64 bits and floating-point numbers.
* `Number.text`: how a number is written.
* `Numeral`: the parts of a number in a text, and `Numeral.value`: what it stands for. The digits
  are collected in 64 bits; those that no longer fit are dropped. Then the number is scaled by a
  power of ten, so the result may miss the nearest number by a little.
-/

namespace ComponentRules

namespace Binary64

/-- Divides by `10 ^ n`, at most 308 places at a time. -/
def shrink (x : Binary64) (n : Nat) : Option Binary64 :=
  if n ≤ 308 then do x.div (← tenTo n)
  else if x.isZero then some x
  else do shrink (← x.div (← tenTo 308)) (n - 308)
termination_by n

/-- `± digits · 10 ^ exponent`, rounded after the digits and after every scaling; `none` beyond
the largest number. -/
def ofDecimal (negative : Bool) (digits : Nat) (exponent : Int) : Option Binary64 := do
  let x ← ofNat digits
  let scaled ←
    if exponent < 0 then x.shrink (-exponent).toNat
    else if exponent ≤ 308 then x.mul (← tenTo exponent.toNat)
    else if x.isZero then some x
    else none
  some { scaled with negative }

end Binary64

namespace Json

/-- Numbers. A whole number that fits 64 bits, with or without sign, stays whole. -/
inductive Number
  | integer (n : Int)
  | float (x : Binary64)
  deriving DecidableEq, Repr

namespace Number

/-- Floating-point numbers whose first digit is worth from `10⁻⁵` to `10¹⁵` are written without an
exponent, the others with the sign of it. -/
def layout : DecimalLayout :=
  ⟨-5, 15, true⟩

def text : Number → List Char
  | .integer n => (if n < 0 then ['-'] else []) ++ Nat.toDigits 10 n.natAbs
  | .float x => x.text layout

/-- Whole numbers and floating-point numbers are never equal; the two zeros are. -/
def same : Number → Number → Bool
  | .integer m, .integer n => m == n
  | .float x, .float y => x.same y
  | _, _ => false

theorem same_self (n : Number) : n.same n = true := by
  cases n <;> simp [same, Binary64.same_self]

end Number

/-- The exponent of a number in a text: its sign and digits. -/
structure Exponent where
  negative : Bool
  digits : List Char

/-- A number in a text: sign, digits before and after the point, exponent. -/
structure Numeral where
  negative : Bool
  whole : List Char
  fraction : Option (List Char)
  exponent : Option Exponent

/-- Why a number in a text has no value: it is too large. The exponent alone shows it after so many
of its digits, or else only the whole number. -/
inductive Overflow
  | inExponent (digits : Nat)
  | atEnd
  deriving DecidableEq, Repr

/-- The largest number of 64 bits. -/
def maxDigits : Nat := Nat.pow 2 64 - 1

/-- Appends digits to a number as long as it fits 64 bits; the rest is returned. -/
def collect (n : Nat) : List Char → Nat × List Char
  | [] => (n, [])
  | c :: cs =>
    let next := n * 10 + (c.toNat - '0'.toNat)
    if next ≤ maxDigits then collect next cs else (n, c :: cs)

/-- The number of leading digits that exceed `limit`, if any do. The first digit never does. -/
def digitsBeyond (limit n count : Nat) : List Char → Option Nat
  | [] => none
  | c :: cs =>
    let next := n * 10 + (c.toNat - '0'.toNat)
    if limit < next then some (count + 1) else digitsBeyond limit next (count + 1) cs

/-- The largest exponent that is read to its end. -/
def maxExponent : Nat := Nat.pow 2 31 - 1

namespace Numeral

/-- A number without point and exponent whose digits fit. Minus zero is a floating-point number,
and so is a negative number below `-2⁶³`. -/
def integer (negative : Bool) (digits : Nat) : Except Overflow Number :=
  if !negative then .ok (.integer digits)
  else if 0 < digits ∧ digits ≤ Nat.pow 2 63 then .ok (.integer (-(digits : Int)))
  else match Binary64.ofDecimal true digits 0 with
    | some x => .ok (.float x)
    | none => .error .atEnd

/-- What a number in a text stands for. -/
def value (numeral : Numeral) : Except Overflow Number :=
  let (whole, dropped) := collect 0 numeral.whole
  match numeral.fraction, numeral.exponent, dropped with
  | none, none, [] => integer numeral.negative whole
  | _, _, _ =>
    let fraction := numeral.fraction.getD []
    let (digits, unused) := collect whole fraction
    let shift : Int := (dropped.length : Int) - ((fraction.length - unused.length : Nat) : Int)
    let float (exponent : Int) : Except Overflow Number :=
      match Binary64.ofDecimal numeral.negative digits exponent with
      | some x => .ok (.float x)
      | none => .error .atEnd
    match numeral.exponent with
    | none => float shift
    | some exponent =>
      let size : Int := Nat.ofDigitChars 10 exponent.digits 0
      if exponent.negative then float (shift - size)
      else match digitsBeyond maxExponent 0 0 exponent.digits with
        | some count => if digits = 0 then float 0 else .error (.inExponent count)
        | none => float (shift + size)

end Numeral

end Json

end ComponentRules
