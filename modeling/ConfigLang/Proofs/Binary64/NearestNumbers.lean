import ConfigLang.Proofs.Binary64.ShortestDecimals
import Mathlib.Order.Monotone.Basic

/-!
# Decimals are rounded to the nearest number

A decimal is read as the binary64 number nearest to it. Of two numbers equally near the one with an
even significand is taken, and what is nearer to the power of two above the largest number than to
that number becomes infinite.

* `unitsOf_strictMono`: magnitudes are ordered as what they denote.
* `isNearest_nearestMagnitude`: a quotient of units is rounded to the nearest magnitude.
* `isRounded_ofDecimal`: a decimal is rounded to the nearest number of its sign.
-/

namespace ConfigLang.Binary64

/-! ## Magnitudes as numbers -/

/-- What a magnitude denotes, in units. The one of infinity denotes the power of two above the
largest finite number. -/
def unitsOf (magnitude : Nat) : Nat :=
  let scale := magnitude / leadingBit - 1
  (magnitude - scale * leadingBit) * Nat.pow 2 scale

/-- A significand of 53 bits, or of fewer at the smallest scale; the next power of two counts as
one more. -/
def IsSignificand (scale k : Nat) : Prop := k ≤ 2 * leadingBit ∧ (scale ≠ 0 → leadingBit ≤ k)

theorem unitsOf_eq {scale k : Nat} (h : IsSignificand scale k) :
    unitsOf (scale * leadingBit + k) = k * 2 ^ scale := by
  obtain ⟨hle, hge⟩ := h
  have hpos : 0 < leadingBit := by decide
  unfold unitsOf
  rw [Nat.add_comm, Nat.add_mul_div_right _ _ hpos]
  by_cases htop : k = 2 * leadingBit
  · -- The next power of two is the first number of the next scale.
    subst htop
    have hscale : 2 * leadingBit / leadingBit + scale - 1 = scale + 1 := by
      rw [Nat.mul_div_cancel 2 hpos]
      omega
    have hrest : 2 * leadingBit + scale * leadingBit - (scale + 1) * leadingBit = leadingBit := by
      rw [Nat.add_mul, Nat.one_mul]
      omega
    rw [hscale]
    dsimp only
    rw [hrest, Nat.pow_eq, Nat.pow_succ, Nat.mul_comm (2 ^ scale), ← Nat.mul_assoc,
      Nat.mul_comm 2]
  · have hscale : k / leadingBit + scale - 1 = scale := by
      have hlt : k / leadingBit < 2 := (Nat.div_lt_iff_lt_mul hpos).2 (by omega)
      by_cases hs : scale = 0
      · omega
      · have hone : 1 ≤ k / leadingBit := (Nat.le_div_iff_mul_le hpos).2 (by
          have := hge hs
          omega)
        omega
    rw [hscale]
    dsimp only
    rw [Nat.add_sub_cancel, Nat.pow_eq]

theorem exists_significand (m : Nat) :
    ∃ scale k, m = scale * leadingBit + k ∧ k < 2 * leadingBit ∧ IsSignificand scale k := by
  have hdiv := Nat.div_add_mod m leadingBit
  have hmod := Nat.mod_lt m (by decide : 0 < leadingBit)
  rw [Nat.mul_comm] at hdiv
  generalize m / leadingBit = q at hdiv
  generalize m % leadingBit = r at hdiv hmod
  rcases q with _ | q
  · exact ⟨0, r, by omega, by omega, by omega, fun h => absurd rfl h⟩
  · rw [Nat.succ_mul] at hdiv
    exact ⟨q, leadingBit + r, by omega, by omega, by omega, fun _ => by omega⟩

/-- Magnitudes are ordered as what they denote. -/
theorem unitsOf_strictMono : StrictMono unitsOf := by
  refine strictMono_nat_of_lt_succ fun m => ?_
  obtain ⟨scale, k, rfl, hlt, hk⟩ := exists_significand m
  have hnext : IsSignificand scale (k + 1) := ⟨hlt, fun hs => Nat.le_succ_of_le (hk.2 hs)⟩
  rw [Nat.add_assoc, unitsOf_eq hk, unitsOf_eq hnext]
  exact Nat.mul_lt_mul_of_pos_right (Nat.lt_succ_self k) (Nat.two_pow_pos scale)

/-! ## Nearest magnitudes -/

/-- How far a magnitude is from `n / d` units, times `d`. -/
def gap (n d m : Nat) : Nat := ((n : Int) - (d * unitsOf m : Nat)).natAbs

/-- No magnitude up to that of infinity is nearer to `n / d` units, and another one as near only if
this one is even. -/
def IsNearest (n d m : Nat) : Prop :=
  m ≤ infinityMagnitude ∧ ∀ other ≤ infinityMagnitude, other ≠ m →
    gap n d m < gap n d other ∨ gap n d m = gap n d other ∧ m % 2 = 0

section
variable {n d a : Nat}

theorem gap_of_le (h : d * unitsOf a ≤ n) : gap n d a = n - d * unitsOf a := by
  unfold gap
  omega

theorem gap_of_ge (h : n ≤ d * unitsOf a) : gap n d a = d * unitsOf a - n := by
  unfold gap
  omega

variable (hd : 0 < d)
include hd

/-- Below what is denoted, smaller magnitudes are farther away. -/
theorem gap_lt_of_lt {m : Nat} (h : d * unitsOf a ≤ n) (hm : m < a) : gap n d a < gap n d m := by
  have hlt := Nat.mul_lt_mul_of_pos_left (unitsOf_strictMono hm) hd
  rw [gap_of_le h, gap_of_le (by omega)]
  omega

/-- Above what is denoted, larger magnitudes are farther away. -/
theorem gap_lt_of_gt {m : Nat} (h : n ≤ d * unitsOf a) (hm : a < m) : gap n d a < gap n d m := by
  have hlt := Nat.mul_lt_mul_of_pos_left (unitsOf_strictMono hm) hd
  rw [gap_of_ge h, gap_of_ge (by omega)]
  omega

/-- The nearer one of the two magnitudes around a quotient is nearest, unless it is beyond the one
of infinity. -/
theorem isNearest_min {m : Nat} (hle : d * unitsOf a ≤ n) (hlt : n < d * unitsOf (a + 1))
    (hm : m = a ∧ gap n d a ≤ gap n d (a + 1) ∨ m = a + 1 ∧ gap n d (a + 1) ≤ gap n d a)
    (hties : gap n d a = gap n d (a + 1) → m % 2 = 0) :
    IsNearest n d (min infinityMagnitude m) := by
  refine ⟨Nat.min_le_left _ _, fun other hother hne => ?_⟩
  by_cases hfinite : m ≤ infinityMagnitude
  · rw [Nat.min_eq_right hfinite] at hne ⊢
    have hneighbours : gap n d m ≤ gap n d a ∧ gap n d m ≤ gap n d (a + 1) := by
      rcases hm with ⟨rfl, hnear⟩ | ⟨rfl, hnear⟩
      · exact ⟨Nat.le_refl _, hnear⟩
      · exact ⟨hnear, Nat.le_refl _⟩
    rcases Nat.lt_or_ge other a with hbelow | hbelow
    · exact .inl (Nat.lt_of_le_of_lt hneighbours.1 (gap_lt_of_lt hd hle hbelow))
    rcases Nat.lt_or_ge (a + 1) other with habove | habove
    · exact .inl (Nat.lt_of_le_of_lt hneighbours.2 (gap_lt_of_gt hd (Nat.le_of_lt hlt) habove))
    -- What is left is the other one of the two.
    rcases hm with ⟨rfl, hnear⟩ | ⟨rfl, hnear⟩
    · obtain rfl : other = m + 1 := by omega
      exact (Nat.lt_or_eq_of_le hnear).imp_right fun heq => ⟨heq, hties heq⟩
    · obtain rfl : other = a := by omega
      exact (Nat.lt_or_eq_of_le hnear).imp_right fun heq => ⟨heq, hties heq.symm⟩
  · have hinfinity : infinityMagnitude ≤ a := by omega
    have hunits : d * unitsOf infinityMagnitude ≤ n :=
      Nat.le_trans (Nat.mul_le_mul_left d (unitsOf_strictMono.monotone hinfinity)) hle
    rw [Nat.min_eq_left (by omega)] at hne ⊢
    exact .inl (gap_lt_of_lt hd hunits (by omega))

end

/-! ## Rounding -/

/-- The scale of a quotient leaves it a significand. -/
theorem isSignificand_quotient (n d : Nat) :
    let scale := (n / d).log2 - 52
    n / (d * 2 ^ scale) < 2 * leadingBit ∧ IsSignificand scale (n / (d * 2 ^ scale)) := by
  intro scale
  have htwo : (2 : Nat) ^ 53 = 2 * leadingBit := by decide
  have hone : (2 : Nat) ^ 52 = leadingBit := by decide
  have hlt : n / (d * 2 ^ scale) < 2 * leadingBit := by
    rw [← Nat.div_div_eq_div_mul, Nat.div_lt_iff_lt_mul (Nat.two_pow_pos scale), ← htwo,
      ← Nat.pow_add]
    exact Nat.lt_of_lt_of_le Nat.lt_log2_self (Nat.pow_le_pow_right (by decide) (by omega))
  refine ⟨hlt, Nat.le_of_lt hlt, fun hscale => ?_⟩
  have hne : n / d ≠ 0 := by
    intro hzero
    have hlog : (n / d).log2 = 0 := by rw [hzero]; rfl
    omega
  rw [← Nat.div_div_eq_div_mul, Nat.le_div_iff_mul_le (Nat.two_pow_pos scale), ← hone,
    ← Nat.pow_add]
  exact Nat.le_trans (Nat.pow_le_pow_right (by decide) (by omega)) (Nat.log2_self_le hne)

/-- **A quotient of units is rounded** to the nearest magnitude. -/
theorem isNearest_nearestMagnitude (n : Nat) {d : Nat} (hd : 0 < d) :
    IsNearest n d (nearestMagnitude n d) := by
  obtain ⟨hlt, hk⟩ := isSignificand_quotient n d
  unfold nearestMagnitude
  dsimp only at hlt hk ⊢
  generalize (n / d).log2 - 52 = scale at hlt hk ⊢
  have hnext : IsSignificand scale (n / (d * 2 ^ scale) + 1) :=
    ⟨hlt, fun hs => Nat.le_succ_of_le (hk.2 hs)⟩
  have hdiv := Nat.div_add_mod n (d * 2 ^ scale)
  have hmod := Nat.mod_lt n (Nat.mul_pos hd (Nat.two_pow_pos scale))
  have hunits (k : Nat) : d * (k * 2 ^ scale) = d * 2 ^ scale * k := by
    rw [Nat.mul_assoc, Nat.mul_comm k]
  have hbelow := (congrArg (d * ·) (unitsOf_eq hk)).trans (hunits _)
  have habove := (congrArg (d * ·) (unitsOf_eq hnext)).trans (hunits _)
  rw [Nat.mul_succ] at habove
  rw [Nat.pow_eq, roundQuotient]
  rw [← Nat.add_assoc] at habove
  generalize n / (d * 2 ^ scale) = k at *
  generalize n % (d * 2 ^ scale) = r at *
  have hgap : gap n d (scale * leadingBit + k) = r := by
    rw [gap_of_le (by omega)]
    omega
  have hgap' : gap n d (scale * leadingBit + k + 1) = d * 2 ^ scale - r := by
    rw [gap_of_ge (by omega)]
    omega
  have heven : leadingBit % 2 = 0 := by decide
  have hscale : scale * leadingBit % 2 = 0 := by rw [Nat.mul_mod, heven, Nat.mul_zero]
  refine isNearest_min (a := scale * leadingBit + k) hd (by omega) (by omega) ?_ ?_
  · rw [hgap, hgap']
    split
    · exact .inl ⟨rfl, by omega⟩
    split
    · exact .inr ⟨by omega, by omega⟩
    · rcases Nat.mod_two_eq_zero_or_one k with hk | hk
      · exact .inl ⟨by omega, by omega⟩
      · exact .inr ⟨by omega, by omega⟩
  · rw [hgap, hgap']
    intro htie
    rw [if_neg (by omega), if_neg (by omega)]
    omega

/-- The number of the given sign that is nearest to `coefficient * 10 ^ exponent`. -/
structure IsRounded (negative : Bool) (coefficient : Nat) (exponent : Int) (x : Binary64) :
    Prop where
  sign : x.isNegative = negative
  nearest : IsNearest (coefficient * 10 ^ exponent.toNat * unitsPerOne) (10 ^ (-exponent).toNat)
    x.magnitude

theorem ofMagnitude_spec (negative : Bool) {m : Nat} (hm : m < signBit) :
    (ofMagnitude negative m).isNegative = negative ∧ (ofMagnitude negative m).magnitude = m := by
  unfold isNegative magnitude ofMagnitude
  unfold signBit at *
  rw [UInt64.toNat_ofNat_of_lt' (by cases negative <;> simp [UInt64.size] <;> omega)]
  cases negative
  · exact ⟨decide_eq_false (by simp; omega), by simp; omega⟩
  · exact ⟨decide_eq_true (by simp), by simp; omega⟩

/-- **A decimal is rounded** to the nearest number of its sign. -/
theorem isRounded_ofDecimal (negative : Bool) (coefficient : Nat) (exponent : Int) :
    IsRounded negative coefficient exponent (ofDecimal negative coefficient exponent) := by
  have hpow : 0 < 10 ^ (-exponent).toNat := Nat.pow_pos (by decide)
  have hnearest := isNearest_nearestMagnitude (coefficient * 10 ^ exponent.toNat * unitsPerOne) hpow
  rw [← decimalMagnitude_eq] at hnearest
  have hlt : decimalMagnitude coefficient exponent < signBit :=
    Nat.lt_of_le_of_lt hnearest.1 (by decide)
  obtain ⟨hsign, hmagnitude⟩ := ofMagnitude_spec negative hlt
  exact ⟨hsign, hmagnitude.symm ▸ hnearest⟩

end ConfigLang.Binary64
