import BenchCharts.Proofs.Binary.Rank

/-!
# How far rounding goes

Rounding to the nearest place goes no further than half of the lowest bit that is kept
(`Format.natAbs_nearest_sub_le`).  A quotient that is not among the smallest places keeps most
of itself (`Format.le_nearestUnits`), and a quotient that is at most a power of two stays so
(`Format.nearestUnits_le_two_pow_of_le`).
-/

namespace BenchCharts

open Binary

namespace Binary

/-- A rounded quotient is at most one half away from the quotient. -/
theorem roundHalfEven_near (num : Nat) {den : Nat} (hden : 0 < den) :
    2 * (roundHalfEven num den * den) ≤ 2 * num + den ∧
      2 * num ≤ 2 * (roundHalfEven num den * den) + den := by
  have hlow := (le_roundHalfEven_iff num hden _).mp (Nat.le_refl (roundHalfEven num den))
  have hhigh := (roundHalfEven_le_iff num hden _).mp (Nat.le_refl (roundHalfEven num den))
  omega

/-- A quotient is rounded by at most half of the lowest bit that is kept. -/
theorem roundRatio_near (digits num : Nat) {den : Nat} (hden : 0 < den) :
    let bit := den * 2 ^ excess digits (num / den)
    2 * (roundRatio digits num den * den) ≤ 2 * num + bit ∧
      2 * num ≤ 2 * (roundRatio digits num den * den) + bit := by
  intro bit
  have hnear := roundHalfEven_near num (Nat.mul_pos hden (Nat.two_pow_pos _) : 0 < bit)
  have hsame : roundRatio digits num den * den = roundHalfEven num bit * bit := by
    simp only [roundRatio, bit, Nat.mul_assoc, Nat.mul_comm den]
  rwa [hsame]

end Binary

namespace Format

variable {f : Format}

theorem nearestUnits_le_two_pow_of_le {num den e : Nat} (hden : 0 < den) (h : num ≤ 2 ^ e * den) :
    f.nearestUnits num den ≤ 2 ^ e :=
  Nat.le_trans (Nat.min_le_left _ _)
    (roundRatio_le f.digits_pos hden (excess_two_pow_dvd f.digits_pos e) h)

/-- What is at most a power of two is not cut off at the limit. -/
theorem nearestUnits_eq_roundRatio {num den e : Nat} (hden : 0 < den) (h : num ≤ 2 ^ e * den)
    (hlimit : e ≤ f.limit) : f.nearestUnits num den = roundRatio f.digits num den := by
  refine Nat.min_eq_left (Nat.le_trans ?_ (Nat.pow_le_pow_right (by decide) hlimit))
  exact roundRatio_le f.digits_pos hden (excess_two_pow_dvd f.digits_pos e) h

/-- A place of at most `digits + e` bits is moved by at most half of `2 ^ e`. -/
theorem natAbs_nearest_sub_le {a : Int} {e : Nat} (h : a.natAbs < 2 ^ (f.digits + e))
    (hlimit : f.digits + e ≤ f.limit) : 2 * (f.nearest a 1 - a).natAbs ≤ 2 ^ e := by
  have hunits : f.nearestUnits a.natAbs 1 = roundRatio f.digits a.natAbs 1 :=
    nearestUnits_eq_roundRatio Nat.one_pos (by omega) hlimit
  have hnear := roundRatio_near f.digits a.natAbs Nat.one_pos
  rw [Nat.div_one, ← hunits] at hnear
  have hbit : 2 ^ excess f.digits a.natAbs ≤ 2 ^ e :=
    Nat.pow_le_pow_right (by decide) (excess_le f.digits_pos h)
  rcases Int.lt_or_le a 0 with hneg | hpos
  · have hnearest : f.nearest a 1 = -(f.nearestUnits a.natAbs 1 : Int) := by
      rw [nearest, decide_eq_true hneg, signed_true]
    omega
  · have hnearest : f.nearest a 1 = f.nearestUnits a.natAbs 1 := by
      rw [nearest, decide_eq_false (Int.not_lt.mpr hpos), signed_false]
    omega

/-- A quotient of eight units or more loses at most a sixteenth. -/
theorem le_nearestUnits {num den e : Nat} (hdigits : 4 ≤ f.digits) (hden : 0 < den)
    (hlarge : 8 * den ≤ num) (h : num ≤ 2 ^ e * den) (hlimit : e ≤ f.limit) :
    15 * num ≤ 16 * (f.nearestUnits num den * den) := by
  rw [nearestUnits_eq_roundRatio hden h hlimit]
  have hnear := (roundRatio_near f.digits num hden).2
  have hbit : 8 * (den * 2 ^ excess f.digits (num / den)) ≤ num := by
    rcases Nat.eq_zero_or_pos (excess f.digits (num / den)) with hzero | hpos
    · rw [hzero]
      omega
    · have hlow := pow_excess_le f.digits_pos hpos
      have hthree : 2 ^ 3 * 2 ^ excess f.digits (num / den) ≤ num / den := by
        rw [← Nat.pow_add]
        exact Nat.le_trans (Nat.pow_le_pow_right (by decide) (by omega)) hlow
      have hmul := (Nat.le_div_iff_mul_le hden).mp hthree
      rw [Nat.mul_assoc] at hmul
      rw [Nat.mul_comm den]
      exact hmul
  omega

end Format

end BenchCharts
