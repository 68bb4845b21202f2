import ConfigLang.Binary64.Rounding

/-!
# Shortest decimals

A finite number is shown by the fewest decimal digits that read back as the number itself, and by
the nearest such decimal where several have that many digits.
-/

namespace ConfigLang

/-- The decimal `coefficient * 10 ^ exponent`. -/
structure Decimal where
  coefficient : Nat
  exponent : Int
deriving DecidableEq, Repr, Inhabited

namespace Binary64

/-- Whether `d` reads back as the absolute value of `x`. -/
def readsBack (x : Binary64) (d : Decimal) : Bool :=
  decide (decimalMagnitude d.coefficient d.exponent = x.magnitude)

/-- The digits of `x` itself: every binary64 number has a finite decimal expansion. -/
def exactDecimal (x : Binary64) : Decimal :=
  if 1074 ≤ x.scale then ⟨x.significand * Nat.pow 2 (x.scale - 1074), 0⟩
  else ⟨x.significand * Nat.pow 5 (1074 - x.scale), (x.scale : Int) - 1074⟩

/-- The two neighbours of `x` among the multiples of `10 ^ exponent`, the nearer one first. -/
def gridNeighbours (ties : TieRule) (x : Binary64) (exponent : Int) : List Decimal :=
  let numerator := x.units * Nat.pow 10 (-exponent).toNat
  let denominator := unitsPerOne * Nat.pow 10 exponent.toNat
  let below := numerator / denominator
  let nearest := roundQuotient ties numerator denominator
  [⟨nearest, exponent⟩, ⟨2 * below + 1 - nearest, exponent⟩]

/-- The exponent of the first decimal digit of a nonzero number. The smallest number exceeds
`10 ^ -324`, so the digits are counted in units of that size. -/
def leadingExponent (x : Binary64) : Int :=
  ((Nat.toDigits 10 (x.units * Nat.pow 10 324 / unitsPerOne)).length : Int) - 325

/-- The shortest decimal that reads back as the absolute value of the finite number `x`. Seventeen
digits distinguish all numbers, so the search ends before the exact digits are needed. -/
def shortest (ties : TieRule) (x : Binary64) : Decimal :=
  let lead := x.leadingExponent
  let onGrid (n : Nat) := (x.gridNeighbours ties (lead - n)).find? x.readsBack
  ((List.range 17).findSome? onGrid).getD x.exactDecimal

end Binary64

end ConfigLang
