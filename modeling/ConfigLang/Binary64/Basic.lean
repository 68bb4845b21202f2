/-!
# Binary64 numbers

A floating-point number is kept as its 64 bits, so two numbers are equal exactly when their bits
are. Below the sign bit stands the magnitude: magnitudes are ordered as the numbers they denote,
and a finite one denotes `significand * 2 ^ scale` in units of `2 ^ -1074`.
-/

namespace ConfigLang

/-- A binary64 number, by its bits. -/
structure Binary64 where
  bits : UInt64
deriving DecidableEq, Repr, Inhabited

namespace Binary64

/-- The bit above all magnitudes. -/
def signBit : Nat := 0x8000000000000000

/-- The leading bit of a significand, which also counts the magnitudes of one scale. -/
def leadingBit : Nat := 0x10000000000000

/-- The magnitude of infinity; above it there are only the magnitudes of NaNs. -/
def infinityMagnitude : Nat := 2047 * leadingBit

/-- The number with the given sign and magnitude. -/
def ofMagnitude (negative : Bool) (magnitude : Nat) : Binary64 :=
  ⟨UInt64.ofNat ((if negative then signBit else 0) + magnitude)⟩

/-- Whether the sign bit is set. -/
def isNegative (x : Binary64) : Bool := decide (signBit ≤ x.bits.toNat)

/-- The bits below the sign. -/
def magnitude (x : Binary64) : Nat := x.bits.toNat % signBit

/-- Neither an infinity nor a NaN. -/
def isFinite (x : Binary64) : Bool := decide (x.magnitude < infinityMagnitude)

/-- Not a number. -/
def isNaN (x : Binary64) : Bool := decide (infinityMagnitude < x.magnitude)

/-- The exponent above that of the smallest numbers. -/
def scale (x : Binary64) : Nat := x.magnitude / leadingBit - 1

/-- The significand as a whole number, its leading bit included. -/
def significand (x : Binary64) : Nat := x.magnitude - x.scale * leadingBit

/-- The absolute value of a finite number in units of `2 ^ -1074`. -/
def units (x : Binary64) : Nat := x.significand * Nat.pow 2 x.scale

/-- How many units make one. -/
def unitsPerOne : Nat := Nat.pow 2 1074

end Binary64

end ConfigLang
