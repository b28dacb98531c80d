import ComponentRules.Number.Shortest
import ComponentRules.Text.Quoted

/-!
# Floating-point numbers in YAML

Besides the finite numbers there are two infinite ones and one that is no number.

* `Real.same`: equality of values.
* `Real.written`, `Real.plain`: how a number is written in YAML, and how it is shown elsewhere.
-/

namespace ComponentRules.Yaml

inductive Real
  | finite (x : Binary64)
  | infinite (negative : Bool)
  | undefined
  deriving DecidableEq, Repr

namespace Real

/-- Equality of values: the two zeros are equal. -/
def same : Real → Real → Bool
  | .finite x, .finite y => x.same y
  | x, y => x == y

/-- Numbers are written without an exponent if their first digit is worth from `10⁻⁵` to `10¹⁵`. -/
def layout : DecimalLayout :=
  ⟨-5, 15, false⟩

/-- No number needs an exponent. -/
def plainLayout : DecimalLayout :=
  ⟨-400, 400, false⟩

/-- A number as YAML writes it. -/
def written : Real → String
  | .finite x => String.ofList (x.text layout)
  | .infinite negative => if negative then "-.inf" else ".inf"
  | .undefined => ".nan"

/-- A number with all its places. -/
def plain : Real → String
  | .finite x => String.ofList (x.text plainLayout)
  | .infinite negative => if negative then "-inf" else "inf"
  | .undefined => "NaN"

end Real

end ComponentRules.Yaml
