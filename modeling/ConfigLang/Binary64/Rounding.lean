import ConfigLang.Binary64.Basic

/-!
# Rounding to binary64

The number nearest to a decimal, computed exactly. A half goes to the even neighbour, and what
lies beyond the largest finite number becomes infinite.
-/

namespace ConfigLang

/-- Where a value half-way between two neighbours goes. -/
inductive TieRule where
  | toEven
  | up
deriving DecidableEq, Repr

/-- `numerator / denominator` rounded to the nearest whole number. -/
def roundQuotient (ties : TieRule) (numerator denominator : Nat) : Nat :=
  let quotient := numerator / denominator
  let twice := 2 * (numerator % denominator)
  if twice < denominator then quotient
  else if denominator < twice then quotient + 1
  else match ties with
    | .up => quotient + 1
    | .toEven => quotient + quotient % 2

namespace Binary64

/-- The magnitude nearest to `numerator / denominator` units. Numbers of one scale differ by whole
multiples of `2 ^ scale` units, and the scale leaves 53 bits of quotient. -/
def nearestMagnitude (numerator denominator : Nat) : Nat :=
  let scale := (numerator / denominator).log2 - 52
  min infinityMagnitude
    (scale * leadingBit + roundQuotient .toEven numerator (denominator * Nat.pow 2 scale))

/-- The magnitude nearest to `coefficient * 10 ^ exponent`. Powers of ten that settle the answer by
themselves, far above the largest number or far below the smallest, are not computed. -/
def decimalMagnitude (coefficient : Nat) : (exponent : Int) → Nat
  | .ofNat k =>
    if coefficient = 0 then 0
    else if 309 < k then infinityMagnitude
    else nearestMagnitude (coefficient * Nat.pow 10 k * unitsPerOne) 1
  | .negSucc k =>
    if coefficient.log2 + 1077 ≤ 3 * (k + 1) then 0
    else nearestMagnitude (coefficient * unitsPerOne) (Nat.pow 10 (k + 1))

/-- The number nearest to the decimal `±coefficient * 10 ^ exponent`. -/
def ofDecimal (negative : Bool) (coefficient : Nat) (exponent : Int) : Binary64 :=
  ofMagnitude negative (decimalMagnitude coefficient exponent)

end Binary64

end ConfigLang
