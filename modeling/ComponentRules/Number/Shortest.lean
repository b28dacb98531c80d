import ComponentRules.Number.Binary64

/-!
# The shortest decimal of a binary number

A binary number is written with the fewest decimal digits that still read back as it; among
decimals of that length the nearest is taken, and of two equally near ones the even one. Small
and large numbers are written with an exponent.

* `Binary64.shortest`: the digits as a whole number and the power of ten it is multiplied by.
* `Binary64.text`: sign, digits, point and exponent.
-/

namespace ComponentRules

/-- A whole number times a power of ten. -/
structure Decimal where
  digits : Nat
  exponent : Int
  deriving DecidableEq, Repr

/-- Which numbers are written without an exponent: those whose first digit is worth at least
`10 ^ least` and at most `10 ^ greatest`. The others may have a plus sign before the exponent. -/
structure DecimalLayout where
  least : Int
  greatest : Int
  plus : Bool

namespace Decimal

/-- Drops zeros at the end of the digits; `fuel` bounds their number. -/
def trimZeros (fuel : Nat) (d : Decimal) : Decimal :=
  match fuel with
  | 0 => d
  | fuel + 1 =>
    if d.digits % 10 = 0 then trimZeros fuel ⟨d.digits / 10, d.exponent + 1⟩ else d

/-- The text of a decimal, with a point or an exponent in any case. -/
def text (layout : DecimalLayout) (d : Decimal) : List Char :=
  let digits := Nat.toDigits 10 d.digits
  let point : Int := digits.length + d.exponent
  if layout.least ≤ point - 1 ∧ point - 1 ≤ layout.greatest then
    if point ≤ 0 then ['0', '.'] ++ List.replicate (-point).toNat '0' ++ digits
    else if 0 ≤ d.exponent then digits ++ List.replicate d.exponent.toNat '0' ++ ['.', '0']
    else digits.take point.toNat ++ '.' :: digits.drop point.toNat
  else
    let fraction := if digits.length = 1 then [] else '.' :: digits.drop 1
    let sign := if point - 1 < 0 then ['-'] else if layout.plus then ['+'] else []
    digits.take 1 ++ fraction ++ 'e' :: sign ++ Nat.toDigits 10 (point - 1).natAbs

end Decimal

namespace Binary64

/-- The decimals that read back as a number: those from `low` to `high`, around `value`, all three
over `den`; the ends belong to them if `closed`. -/
structure Reach where
  low : Nat
  value : Nat
  high : Nat
  den : Nat
  closed : Bool

/-- The reach of a number other than zero goes half-way to its neighbours. Just above a power of
two the lower neighbour is twice as close. A half-way point is read as the even neighbour. -/
def reach (x : Binary64) : Reach :=
  let below := if x.mantissa = Nat.pow 2 52 ∧ leastExponent < x.exponent then 1 else 2
  let (den, unit) := scaled 1 1 (x.exponent - 2)
  { low := (4 * x.mantissa - below) * unit
    value := 4 * x.mantissa * unit
    high := (4 * x.mantissa + 2) * unit
    den
    closed := x.mantissa % 2 == 0 }

namespace Reach

/-- The power of ten that the first digit of the value is worth. -/
def leading (r : Reach) : Int :=
  if r.den ≤ r.value then ((Nat.toDigits 10 (r.value / r.den)).length : Int) - 1
  else
    let places := (Nat.toDigits 10 (r.den / r.value)).length
    if r.den ≤ r.value * Nat.pow 10 (places - 1) then 1 - (places : Int) else -(places : Int)

/-- The same reach in units of `10 ^ k`. -/
def inUnits (r : Reach) (k : Int) : Reach :=
  if 0 ≤ k then { r with den := r.den * Nat.pow 10 k.toNat }
  else
    let scale := Nat.pow 10 (-k).toNat
    { r with low := r.low * scale, value := r.value * scale, high := r.high * scale }

/-- Whether a whole number of units reads back. -/
def holds (r : Reach) (n : Nat) : Bool :=
  if r.closed then r.low ≤ n * r.den && n * r.den ≤ r.high
  else r.low < n * r.den && n * r.den < r.high

/-- The whole number of units that reads back and is nearest to the value: one of the two around
the value, if any. -/
def nearest? (r : Reach) : Option Nat :=
  let below := r.value / r.den
  let first := roundDiv r.value r.den
  let second := if first = below then below + 1 else below
  if r.holds first then some first else if r.holds second then some second else none

end Reach

/-- The shortest decimal that reads back as a positive number. Seventeen digits always do. -/
def shortest (x : Binary64) : Decimal :=
  let r := x.reach
  let found := (List.range 17).findSome? fun (i : Nat) =>
    let k := r.leading - i
    (r.inUnits k).nearest?.map fun n => (⟨n, k⟩ : Decimal)
  (found.getD ⟨0, 0⟩).trimZeros 17

/-- The text of a number. Zero has a digit on either side of the point. -/
def text (layout : DecimalLayout) (x : Binary64) : List Char :=
  let sign := if x.negative then ['-'] else []
  if x.isZero then sign ++ ['0', '.', '0'] else sign ++ x.shortest.text layout

end Binary64

end ComponentRules
