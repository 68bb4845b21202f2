/-!
# Inversion lists

A set of code points is kept as the increasing list of the points where membership changes:
the first bound enters the set, the second leaves it, the third enters it again.
-/

namespace ConfigLang.Text

/-- A set of code points as the increasing list of its bounds. -/
structure InversionList where
  bounds : List Nat

namespace InversionList

/-- Membership of `n` among the bounds still ahead, given whether the points before them belong. -/
def containsFrom (inside : Bool) : List Nat → Nat → Bool
  | [], _ => inside
  | b :: bs, n => if n < b then inside else containsFrom (!inside) bs n

/-- Whether the code point `n` belongs to the set. -/
def contains (s : InversionList) (n : Nat) : Bool := containsFrom false s.bounds n

theorem containsFrom_of_lt {inside : Bool} {b n : Nat} {bs : List Nat} (h : n < b) :
    containsFrom inside (b :: bs) n = inside := by
  simp [containsFrom, h]

theorem containsFrom_of_le {inside : Bool} {b n : Nat} {bs : List Nat} (h : b ≤ n) :
    containsFrom inside (b :: bs) n = containsFrom (!inside) bs n := by
  simp [containsFrom, Nat.not_lt.2 h]

end InversionList

end ConfigLang.Text
