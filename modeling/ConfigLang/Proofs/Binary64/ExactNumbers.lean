import ConfigLang.Binary64.Rounding

/-!
# Exact decimals

A finite binary64 number is a decimal of finitely many digits, and rounding that decimal gives the
number back, sign and all.

* `nearestMagnitude_units`: a quotient that is a number exactly is rounded to that number.
* `decimalMagnitude_exact`: the digits of a number, as a decimal, are rounded to the number.
* `ofMagnitude_self`: sign and magnitude determine the bits.
-/

namespace ConfigLang

/-- A whole quotient is not rounded. -/
theorem roundQuotient_mul (ties : TieRule) (q : Nat) {d : Nat} (hd : 0 < d) :
    roundQuotient ties (q * d) d = q := by
  unfold roundQuotient
  rw [Nat.mul_mod_left, Nat.mul_div_cancel q hd]
  exact if_pos (by simpa using hd)

namespace Binary64

variable {x : Binary64}

theorem magnitude_lt (hx : x.isFinite) : x.magnitude < infinityMagnitude := by
  simpa [isFinite] using hx

/-- A magnitude counts the numbers of the scales below it and its significand. -/
theorem magnitude_eq (x : Binary64) : x.scale * leadingBit + x.significand = x.magnitude := by
  have hle : x.scale * leadingBit ≤ x.magnitude := by
    have hscale : x.scale ≤ x.magnitude / leadingBit := Nat.sub_le _ _
    exact Nat.le_trans (Nat.mul_le_mul_right _ hscale) (Nat.div_mul_le_self _ _)
  unfold significand
  omega

/-- Significands have 53 bits, the first of them set above the smallest scale. -/
theorem significand_bounds (x : Binary64) :
    x.significand < 2 * leadingBit ∧ (x.scale ≠ 0 → leadingBit ≤ x.significand) := by
  have hpos : 0 < leadingBit := by decide
  have hdiv := Nat.div_add_mod x.magnitude leadingBit
  have hmod := Nat.mod_lt x.magnitude hpos
  unfold significand scale
  generalize x.magnitude / leadingBit = q at hdiv
  rcases q with _ | q
  · constructor
    · omega
    · intro h
      exact absurd rfl h
  · rw [Nat.mul_succ, Nat.mul_comm] at hdiv
    rw [Nat.add_sub_cancel]
    omega

/-- The scale is read off the length of the number in units. -/
theorem log2_units (x : Binary64) : x.units.log2 - 52 = x.scale := by
  obtain ⟨hlt, hge⟩ := x.significand_bounds
  have hbit : leadingBit = 2 ^ 52 := by decide
  have hunits : x.units = x.significand * 2 ^ x.scale := rfl
  rw [hunits]
  by_cases hs : x.scale = 0
  · rw [hs, Nat.pow_zero, Nat.mul_one]
    by_cases hzero : x.significand = 0
    · rw [hzero]
      rfl
    · have hlog : x.significand.log2 < 53 := by
        rw [Nat.log2_lt hzero]
        omega
      omega
  · have hlow := Nat.mul_le_mul_right (2 ^ x.scale) (hge hs)
    have hhigh := Nat.mul_lt_mul_of_pos_right hlt (Nat.two_pow_pos x.scale)
    have hne : x.significand * 2 ^ x.scale ≠ 0 := by
      have hpos := Nat.two_pow_pos x.scale
      have hsig : 0 < x.significand := Nat.lt_of_lt_of_le (by decide) (hge hs)
      exact Nat.ne_of_gt (Nat.mul_pos hsig hpos)
    have hlog : (x.significand * 2 ^ x.scale).log2 = 52 + x.scale := by
      rw [Nat.log2_eq_iff hne, Nat.pow_add, Nat.add_right_comm, Nat.pow_add, ← hbit]
      refine ⟨hlow, ?_⟩
      have hdouble : 2 ^ (52 + 1) = 2 * leadingBit := by decide
      rw [hdouble]
      exact hhigh
    omega

/-- A quotient that is a number exactly is rounded to that number. -/
theorem nearestMagnitude_units (hx : x.isFinite) {d : Nat} (hd : 0 < d) :
    nearestMagnitude (x.units * d) d = x.magnitude := by
  have hpow : 0 < 2 ^ x.scale := Nat.two_pow_pos _
  have hunits : x.units * d = x.significand * (d * 2 ^ x.scale) := by
    change x.significand * 2 ^ x.scale * d = _
    rw [Nat.mul_assoc, Nat.mul_comm (2 ^ x.scale)]
  unfold nearestMagnitude
  rw [Nat.mul_div_cancel _ hd, log2_units]
  dsimp only
  rw [hunits, Nat.pow_eq, roundQuotient_mul _ _ (Nat.mul_pos hd hpow), magnitude_eq]
  exact Nat.min_eq_right (Nat.le_of_lt (magnitude_lt hx))

/-! ## Decimals -/

/-- The digits of a number, its point left out: a unit takes 1074 digits behind the point. -/
def digitsValue (x : Binary64) : Nat := x.units * Nat.pow 5 1074

theorem shift_eq (u k : Nat) : 10 * (u * Nat.pow 5 k) * Nat.pow 2 k = u * Nat.pow 10 (k + 1) := by
  have hten : Nat.pow 10 (k + 1) = 10 * (Nat.pow 5 k * Nat.pow 2 k) := by
    simp only [Nat.pow_eq]
    rw [← Nat.mul_pow, Nat.pow_succ, Nat.mul_comm]
  rw [hten]
  ac_rfl

theorem log2_digits {u : Nat} (hu : u ≠ 0) (k : Nat) :
    2 * k + 3 ≤ (10 * (u * Nat.pow 5 k)).log2 := by
  have hfour : 2 ^ (2 * k) ≤ 5 ^ k := by
    rw [Nat.pow_mul]
    exact Nat.pow_le_pow_left (by decide) k
  have hfive : 2 ^ (2 * k + 3) ≤ 10 * (u * Nat.pow 5 k) := by
    rw [Nat.pow_add, Nat.mul_comm, Nat.pow_eq]
    refine Nat.mul_le_mul (by decide) (Nat.le_trans hfour ?_)
    exact Nat.le_mul_of_pos_left _ (Nat.pos_of_ne_zero hu)
  have hpos : 0 < 2 ^ (2 * k + 3) := Nat.two_pow_pos _
  exact (Nat.le_log2 (by omega)).2 hfive

theorem magnitude_eq_zero (h : x.units = 0) : x.magnitude = 0 := by
  have hpow : 0 < Nat.pow 2 x.scale := Nat.two_pow_pos x.scale
  have hsig : x.significand = 0 := by
    rcases Nat.mul_eq_zero.1 h with hsig | hscale
    · exact hsig
    · omega
  have hscale : x.scale = 0 := by
    by_cases hscale : x.scale = 0
    · exact hscale
    · have hge := x.significand_bounds.2 hscale
      rw [hsig] at hge
      exact absurd hge (by decide)
  rw [← magnitude_eq, hsig, hscale, Nat.zero_mul]

/-- The digits of a number, as a decimal, are rounded to the number. A zero stands behind them. -/
theorem decimalMagnitude_exact (hx : x.isFinite) :
    decimalMagnitude (10 * x.digitsValue) (.negSucc 1074) = x.magnitude := by
  unfold decimalMagnitude digitsValue unitsPerOne
  generalize hk : 1074 = k
  dsimp only
  split
  · rename_i hsmall
    by_cases hu : x.units = 0
    · exact (magnitude_eq_zero hu).symm
    · have hlog := log2_digits hu k
      omega
  · rw [shift_eq]
    exact nearestMagnitude_units hx (Nat.pow_pos (by decide))

/-- Sign and magnitude determine the bits. -/
theorem ofMagnitude_self (x : Binary64) : ofMagnitude x.isNegative x.magnitude = x := by
  have hlt : x.bits.toNat < 2 * signBit := x.bits.toNat_lt
  have hbits : (if x.isNegative then signBit else 0) + x.magnitude = x.bits.toNat := by
    unfold isNegative magnitude
    unfold signBit at hlt ⊢
    simp only [decide_eq_true_eq]
    split <;> omega
  unfold ofMagnitude
  rw [hbits, UInt64.ofNat_toNat]

end Binary64

end ConfigLang
