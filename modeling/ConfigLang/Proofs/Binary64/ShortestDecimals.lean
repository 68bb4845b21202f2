import ConfigLang.Binary64.Shortest
import ConfigLang.Proofs.Binary64.ExactNumbers
import Mathlib.Algebra.Group.Nat.Defs

/-!
# Decimals that read back

Reading a decimal depends on the number that it denotes and not on how its digits and its exponent
share it, and the shortest decimal of a finite number reads back as that number.

* `decimalMagnitude_eq`: a decimal is read as one quotient, whatever its exponent.
* `decimalMagnitude_shift`: zeros at the end of the digits count as an exponent.
* `readsBack_shortest`: what the search for the fewest digits finds reads back.
-/

namespace ConfigLang

/-- Rounding sees a quotient and not its two numbers. -/
theorem roundQuotient_mul_right (ties : TieRule) (n d : Nat) {m : Nat} (hm : 0 < m) :
    roundQuotient ties (n * m) (d * m) = roundQuotient ties n d := by
  have htwice : 2 * (n % d * m) = 2 * (n % d) * m := (Nat.mul_assoc 2 _ m).symm
  unfold roundQuotient
  rw [Nat.mul_div_mul_right n d hm, Nat.mul_mod_mul_right, htwice]
  dsimp only
  simp only [Nat.mul_lt_mul_right hm]

namespace Binary64

theorem nearestMagnitude_mul_right (n d : Nat) {m : Nat} (hm : 0 < m) :
    nearestMagnitude (n * m) (d * m) = nearestMagnitude n d := by
  unfold nearestMagnitude
  rw [Nat.mul_div_mul_right n d hm]
  dsimp only
  rw [Nat.mul_right_comm d m, roundQuotient_mul_right _ _ _ hm]

/-! ## Powers of ten that settle the answer -/

/-- A unit is one, halved so many times. -/
def unitHalvings : Nat := 1074

theorem unitsPerOne_eq : unitsPerOne = 2 ^ unitHalvings := by
  unfold unitsPerOne unitHalvings
  generalize 1074 = k
  rfl

/-- So many units make an infinity. -/
theorem nearestMagnitude_of_large {n b : Nat} (hn : 2 ^ b ≤ n) (hb : 2099 ≤ b) :
    nearestMagnitude n 1 = infinityMagnitude := by
  have hpos : 0 < 2 ^ b := Nat.two_pow_pos _
  have hlog : b ≤ n.log2 := (Nat.le_log2 (by omega)).2 hn
  unfold nearestMagnitude
  rw [Nat.div_one]
  apply Nat.min_eq_left
  have hscale : 2047 ≤ n.log2 - 52 := by omega
  exact Nat.le_trans (Nat.mul_le_mul_right leadingBit hscale) (Nat.le_add_right _ _)

/-- Less than half a unit is nothing. -/
theorem nearestMagnitude_of_small {n d : Nat} (h : 2 * n < d) : nearestMagnitude n d = 0 := by
  have hdiv : n / d = 0 := Nat.div_eq_of_lt (by omega)
  have hmod : n % d = n := Nat.mod_eq_of_lt (by omega)
  have hscale : (0 : Nat).log2 - 52 = 0 := by decide
  have hround : roundQuotient .toEven n d = 0 := by
    unfold roundQuotient
    rw [hdiv, hmod]
    exact if_pos h
  unfold nearestMagnitude
  rw [hdiv, hscale]
  dsimp only
  rw [Nat.pow_eq, Nat.pow_zero, Nat.mul_one, hround, Nat.zero_mul, Nat.add_zero]
  exact Nat.min_eq_right (Nat.zero_le _)

theorem pow_le_pow_of_base {a b p q m k : Nat} (hb : 0 < b) (h : a ^ p ≤ b ^ q)
    (hk : q * m ≤ k) : a ^ (p * m) ≤ b ^ k := by
  calc a ^ (p * m) = (a ^ p) ^ m := Nat.pow_mul a p m
    _ ≤ (b ^ q) ^ m := Nat.pow_le_pow_left h m
    _ = b ^ (q * m) := (Nat.pow_mul b q m).symm
    _ ≤ b ^ k := Nat.pow_le_pow_right hb hk

theorem units_of_high_power {b c k : Nat} (h : 2 ^ b ≤ 10 ^ k) (hc : c ≠ 0) :
    2 ^ (b + unitHalvings) ≤ c * 10 ^ k * unitsPerOne := by
  have hcoefficient : 10 ^ k ≤ c * 10 ^ k := Nat.le_mul_of_pos_left _ (Nat.pos_of_ne_zero hc)
  rw [Nat.pow_add, unitsPerOne_eq]
  exact Nat.mul_le_mul_right _ (Nat.le_trans h hcoefficient)

theorem units_of_low_power {c k : Nat} (h : c.log2 + 1077 ≤ 3 * k) :
    2 * (c * unitsPerOne) < 10 ^ k := by
  have hhalvings : unitHalvings = 1074 := rfl
  have hlt : c < 2 ^ (c.log2 + 1) := Nat.lt_log2_self
  have hunits : c * unitsPerOne < 2 ^ (c.log2 + 1 + unitHalvings) := by
    rw [Nat.pow_add, unitsPerOne_eq]
    exact Nat.mul_lt_mul_of_pos_right hlt (Nat.two_pow_pos _)
  have height : 2 ^ (3 * k) ≤ 10 ^ k :=
    pow_le_pow_of_base (by decide) (by decide : 2 ^ 3 ≤ 10 ^ 1) (by omega)
  calc 2 * (c * unitsPerOne) < 2 * 2 ^ (c.log2 + 1 + unitHalvings) :=
        Nat.mul_lt_mul_of_pos_left hunits (by decide)
    _ = 2 ^ (c.log2 + 1 + unitHalvings + 1) := by rw [Nat.pow_succ _ (_ + _), Nat.mul_comm]
    _ ≤ 2 ^ (3 * k) := Nat.pow_le_pow_right (by decide) (by omega)
    _ ≤ 10 ^ k := height

/-- A decimal is read as a quotient of units; the powers that are not computed change nothing. -/
theorem decimalMagnitude_eq (c : Nat) (e : Int) :
    decimalMagnitude c e =
      nearestMagnitude (c * 10 ^ e.toNat * unitsPerOne) (10 ^ (-e).toNat) := by
  cases e with
  | ofNat k =>
    have hnum : (Int.ofNat k).toNat = k := rfl
    have hden : (-Int.ofNat k).toNat = 0 := by
      show (-(k : Int)).toNat = 0
      omega
    rw [hnum, hden, Nat.pow_zero]
    unfold decimalMagnitude
    dsimp only
    by_cases hc : c = 0
    · rw [if_pos hc, hc, Nat.zero_mul, Nat.zero_mul]
      rfl
    · rw [if_neg hc]
      by_cases hk : 309 < k
      · rw [if_pos hk]
        have hbase : 2 ^ 205 ≤ 10 ^ 62 := by decide
        have hpow := pow_le_pow_of_base (m := 5) (by decide) hbase (by omega : 62 * 5 ≤ k)
        exact (nearestMagnitude_of_large (units_of_high_power hpow hc) (by decide)).symm
      · rw [if_neg hk]
        rfl
  | negSucc k =>
    have hnum : (Int.negSucc k).toNat = 0 := rfl
    have hden : (-Int.negSucc k).toNat = k + 1 := rfl
    rw [hnum, hden, Nat.pow_zero, Nat.mul_one]
    unfold decimalMagnitude
    dsimp only
    by_cases hlow : c.log2 + 1077 ≤ 3 * (k + 1)
    · rw [if_pos hlow]
      exact (nearestMagnitude_of_small (units_of_low_power hlow)).symm
    · rw [if_neg hlow]
      rfl

/-- Zeros at the end of the digits count as an exponent. -/
theorem decimalMagnitude_shift (c k : Nat) (e : Int) :
    decimalMagnitude (c * 10 ^ k) e = decimalMagnitude c (e + k) := by
  -- The two quotients differ by a power of ten.
  obtain ⟨m, hnum, hden⟩ : ∃ m, k + e.toNat = (e + k).toNat + m ∧
      (-e).toNat = (-(e + k)).toNat + m :=
    ⟨min k (-e).toNat, by omega, by omega⟩
  have hunits : c * 10 ^ k * 10 ^ e.toNat * unitsPerOne =
      c * 10 ^ (e + k).toNat * unitsPerOne * 10 ^ m := by
    rw [Nat.mul_assoc c, ← Nat.pow_add, hnum, Nat.pow_add, ← Nat.mul_assoc, Nat.mul_right_comm]
  rw [decimalMagnitude_eq, decimalMagnitude_eq, hunits, hden, Nat.pow_add]
  exact nearestMagnitude_mul_right _ _ (Nat.pow_pos (by decide))

/-! ## Shortest decimals -/

variable {x : Binary64}

/-- All digits of a number read back. -/
theorem readsBack_exactDecimal (hx : x.isFinite) : x.readsBack x.exactDecimal := by
  have hhalvings : unitHalvings = 1074 := rfl
  unfold readsBack exactDecimal
  rw [← hhalvings]
  apply decide_eq_true
  split
  · rename_i hscale
    have hunits : x.significand * Nat.pow 2 (x.scale - unitHalvings) * unitsPerOne = x.units := by
      rw [Nat.mul_assoc, unitsPerOne_eq, Nat.pow_eq, ← Nat.pow_add, Nat.sub_add_cancel hscale]
      rfl
    have hone := nearestMagnitude_units hx Nat.one_pos
    rw [Nat.mul_one, ← hunits] at hone
    show decimalMagnitude (x.significand * Nat.pow 2 (x.scale - unitHalvings)) 0 = _
    rw [decimalMagnitude_eq]
    simpa using hone
  · rename_i hscale
    obtain ⟨j, hj⟩ : ∃ j, unitHalvings = x.scale + j := ⟨unitHalvings - x.scale, by omega⟩
    have hunits : x.significand * Nat.pow 5 j * unitsPerOne = x.units * 10 ^ j := by
      have hten : (10 : Nat) ^ j = 5 ^ j * 2 ^ j := by rw [← Nat.mul_pow]
      show _ = x.significand * 2 ^ x.scale * 10 ^ j
      rw [unitsPerOne_eq, hj, Nat.pow_add, hten, Nat.pow_eq]
      ac_rfl
    have hsub : unitHalvings - x.scale = j := by omega
    have hexponent : (x.scale : Int) - 1074 = -j := by omega
    have hnum : (-(j : Int)).toNat = 0 := by omega
    have hden : (- -(j : Int)).toNat = j := by omega
    rw [hsub, hexponent, decimalMagnitude_eq, hnum, hden, Nat.pow_zero, Nat.mul_one, hunits]
    exact nearestMagnitude_units hx (Nat.pow_pos (by decide))

/-- The shortest decimal of a number reads back. -/
theorem readsBack_shortest (hx : x.isFinite) (ties : TieRule) : x.readsBack (x.shortest ties) := by
  unfold shortest
  dsimp only
  cases hfound : (List.range 17).findSome? _ with
  | none => exact readsBack_exactDecimal hx
  | some d =>
    obtain ⟨n, -, hn⟩ := List.exists_of_findSome?_eq_some hfound
    exact List.find?_some hn

end Binary64

end ConfigLang
