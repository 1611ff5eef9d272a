import BenchCharts.Decimal.Scientific
import BenchCharts.Proofs.Binary.Ratio
import Mathlib.Algebra.Order.Field.Power

/-!
# Values of decimal numbers

A decimal number is read as a magnitude if its value, a rational number, is rounded to it
(`toBinary_eq_finite_iff`).  The bounds that keep powers of ten far outside the format from
being computed do not change what is read (`toBinary_eq_ofUnits`).
-/

namespace BenchCharts

open Binary

variable {f : Format}

namespace Binary

variable {negative : Bool} {num den m : Nat}

theorem ofUnits_eq_finite_iff {negative' : Bool} {fits : f.Fits m} :
    ofUnits negative num den = .finite negative' m fits ↔
      negative = negative' ∧ roundRatio f.digits num den = m := by
  unfold ofUnits
  dsimp only
  split
  · constructor
    · intro h
      cases h
      exact ⟨rfl, rfl⟩
    · rintro ⟨rfl, rfl⟩
      rfl
  · rename_i hge
    refine iff_of_false nofun fun h => hge ?_
    rw [h.2]
    exact fits.2

theorem ofUnits_eq_infinite (h : 2 ^ f.limit ≤ roundRatio f.digits num den) :
    ofUnits negative num den = (.infinite negative : Binary f) := by
  rw [ofUnits, dif_neg (Nat.not_lt.mpr h)]

/-- Less than half a unit is rounded to zero. -/
theorem ofUnits_eq_zero (h : 2 * num < den) :
    ofUnits negative num den = (zero negative : Binary f) := by
  refine ofUnits_eq_finite_iff.mpr ⟨rfl, Nat.le_zero.mp ?_⟩
  apply roundRatio_le_of_near f.digits_pos (by omega) (Nat.dvd_zero _)
  have hstep := Nat.mul_le_mul_right den (Nat.one_le_two_pow (n := excess f.digits 0))
  omega

end Binary

namespace Scientific

/-- The value of a decimal number. -/
def value (x : Scientific) : ℚ :=
  x.mantissa * 10 ^ x.exponent

/-- The number of units of a decimal number, over `10 ^ (-exponent).toNat`. -/
def units (f : Format) (x : Scientific) : Nat :=
  x.mantissa * 10 ^ x.exponent.toNat * f.one

/-- A power of ten is not below the power of two. -/
theorem two_pow_le_units {mantissa e n : Nat} (hpos : 0 < mantissa) (h : n ≤ e) :
    2 ^ n ≤ mantissa * 10 ^ e * f.one := by
  have hten : 2 ^ n ≤ 10 ^ e :=
    Nat.le_trans (Nat.pow_le_pow_right (by decide) h) (Nat.pow_le_pow_left (by decide) e)
  have hmantissa := Nat.le_mul_of_pos_left (10 ^ e) hpos
  have hone := Nat.le_mul_of_pos_right (mantissa * 10 ^ e) f.one_pos
  omega

/-- Digits far behind the point are less than half a unit. -/
theorem two_mul_units_lt {mantissa e : Nat} (h : mantissa.log2 + 2 + f.scale < e) :
    2 * (mantissa * f.one) < 10 ^ e := by
  have hmantissa := Nat.mul_lt_mul_of_pos_right (Nat.lt_log2_self (n := mantissa)) f.one_pos
  have hpow : 2 * (2 ^ (mantissa.log2 + 1) * f.one) = 2 ^ (mantissa.log2 + 2 + f.scale) := by
    rw [Format.one, ← Nat.pow_add, ← Nat.pow_succ']
    congr 1
    omega
  have hten : 2 ^ (mantissa.log2 + 2 + f.scale) ≤ 10 ^ e :=
    Nat.le_trans (Nat.pow_le_pow_right (by decide) (Nat.le_of_lt h))
      (Nat.pow_le_pow_left (by decide) e)
  omega

/-- The bounds on the exponent only save computing powers. -/
theorem toBinary_eq_ofUnits (negative : Bool) (x : Scientific) :
    (x.toBinary negative : Binary f)
      = ofUnits negative (x.units f) (10 ^ (-x.exponent).toNat) := by
  obtain ⟨mantissa, exponent⟩ := x
  simp only [toBinary, ofDecimal, units]
  by_cases hzero : mantissa = 0
  · rw [if_pos hzero, hzero, Nat.zero_mul, Nat.zero_mul]
    exact (ofUnits_eq_zero (Nat.pow_pos (by decide))).symm
  rw [if_neg hzero]
  split
  · rename_i hpos
    obtain ⟨e, rfl⟩ := Int.eq_ofNat_of_zero_le hpos
    rw [Int.toNat_natCast, Int.toNat_of_nonpos (by omega), Nat.pow_zero]
    split
    · rename_i hlimit
      refine (ofUnits_eq_infinite ?_).symm
      apply le_roundRatio f.digits_pos Nat.one_pos (excess_two_pow_dvd f.digits_pos f.limit)
      exact Nat.mul_one _ ▸ two_pow_le_units (Nat.pos_of_ne_zero hzero) (Nat.le_of_lt hlimit)
    · rfl
  · rename_i hneg
    obtain ⟨e, he⟩ := Int.eq_ofNat_of_zero_le (show 0 ≤ -exponent by omega)
    have habs : exponent.natAbs = e := by omega
    rw [he, habs, Int.toNat_natCast, Int.toNat_of_nonpos (by omega), Nat.pow_zero, Nat.mul_one]
    split
    · rename_i hlimit
      exact (ofUnits_eq_zero (two_mul_units_lt hlimit)).symm
    · rfl

theorem value_eq_div (x : Scientific) :
    x.value = (x.mantissa * 10 ^ x.exponent.toNat : Nat) / (10 ^ (-x.exponent).toNat : Nat) := by
  rw [value]
  rcases Int.le_total 0 x.exponent with hpos | hneg
  · obtain ⟨n, hn⟩ := Int.eq_ofNat_of_zero_le hpos
    rw [hn]
    simp
  · obtain ⟨n, hn⟩ := Int.eq_ofNat_of_zero_le (Int.neg_nonneg_of_nonpos hneg)
    have hexponent : x.exponent = -n := by omega
    rw [hexponent]
    simp [div_eq_mul_inv]

/-- What a decimal number is read as. -/
theorem toBinary_eq_finite_iff {negative negative' : Bool} {m : Nat} {fits : f.Fits m}
    (x : Scientific) : x.toBinary negative = .finite negative' m fits ↔
      negative = negative' ∧ f.magnitude x.value = m := by
  rw [toBinary_eq_ofUnits, ofUnits_eq_finite_iff, units,
    Format.magnitude_of_eq_div (Nat.pow_pos (by decide)) x.value_eq_div]

end Scientific

end BenchCharts
