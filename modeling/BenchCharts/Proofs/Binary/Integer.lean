import BenchCharts.Binary.Integer
import BenchCharts.Proofs.Binary.Rank

/-!
# Integers read from values

The integer that is read from a value is the one towards zero, brought between the bounds of
the machine integers (`toInt_of_rank`).

The integer below a value is the quotient of its rank and the units of one, and the integer
above it is that of the value on the other side of zero (`toInt32_floor`, `toInt32_ceil`).
The whole value between them is not rounded as long as it has no more than `digits` digits.
-/

namespace BenchCharts

open Binary

/-- The format has room for the whole numbers that it does not round. -/
def Format.HoldsWhole (f : Format) : Prop :=
  f.digits + f.scale < f.limit

namespace Binary

variable {f : Format} {x : Binary f} {a k : Int}

/-! ## Whole values -/

theorem natAbs_mul_one_lt (hf : f.HoldsWhole) (hk : k.natAbs ≤ 2 ^ f.digits) :
    (k * f.one).natAbs < 2 ^ f.limit := by
  rw [Int.natAbs_mul, Int.natAbs_natCast]
  refine Nat.lt_of_le_of_lt (Nat.mul_le_mul_right _ hk) ?_
  rw [Format.two_pow_digits_mul_one]
  exact Nat.pow_lt_pow_right (by decide) hf

/-- A whole number of ones is not rounded. -/
theorem standsAt_mul_one (hf : f.HoldsWhole) (hk : k.natAbs ≤ 2 ^ f.digits)
    (hx : x.rank = some (f.nearest (k * f.one) 1)) : x.StandsAt (k * f.one) := by
  have hexact : f.nearest (k * f.one) 1 = k * f.one :=
    Format.nearest_mul_two_pow hk (Nat.le_of_lt hf)
  rw [hexact] at hx
  exact standsAt_of_rank hx (natAbs_mul_one_lt hf hk)

theorem standsAt_ofInt (hf : f.HoldsWhole) (hk : k.natAbs ≤ 2 ^ f.digits) :
    (ofInt k : Binary f).StandsAt (k * f.one) := by
  have hrank := rank_ofUnits (f := f) (decide (k < 0)) (k.natAbs * f.one) 1
  have hunits : signed (decide (k < 0)) (k.natAbs * f.one) = k * f.one := by
    have hsigned := signed_mul (decide (k < 0)) false k.natAbs f.one
    have hself : signed (decide (k < 0)) k.natAbs = k := by
      rcases Int.lt_or_le k 0 with hneg | hpos
      · rw [decide_eq_true hneg, signed_true]
        omega
      · rw [decide_eq_false (Int.not_lt.mpr hpos), signed_false]
        omega
    rwa [hself, Bool.bne_false] at hsigned
  rw [hunits] at hrank
  exact standsAt_mul_one hf hk hrank

/-! ## Integer parts -/

theorem signed_div (negative : Bool) (m n : Nat) :
    signed negative (m / n) = (signed negative m).tdiv n := by
  cases negative with
  | false => rfl
  | true =>
    rw [signed_true, signed_true, Int.neg_tdiv]
    rfl

/-- The infinities are beyond all bounds of machine integers, so the integer that is read
from a number is the one towards zero, brought between the bounds. -/
theorem toInt_of_rank {low high : Int} (hx : x.rank = some a) (hf : f.scale ≤ f.limit)
    (hrange : low ≤ high) (hlow : -((2 ^ (f.limit - f.scale) : Nat) : Int) ≤ low)
    (hhigh : high ≤ (2 ^ (f.limit - f.scale) : Nat)) :
    x.toInt low high = max low (min high (a.tdiv f.one)) := by
  cases x with
  | nan => cases hx
  | finite s m hm =>
    rw [← Option.some.inj hx, ← signed_div]
    rfl
  | infinite s =>
    have hlimit : 2 ^ f.limit / f.one = 2 ^ (f.limit - f.scale) := Nat.pow_div hf (by decide)
    rw [← Option.some.inj hx, ← signed_div, hlimit]
    generalize 2 ^ (f.limit - f.scale) = bound at hlow hhigh
    cases s with
    | false =>
      show high = _
      rw [signed_false]
      omega
    | true =>
      show low = _
      rw [signed_true]
      omega

/-- The integer part of a whole value. -/
theorem toInt32_of_standsAt (h : x.StandsAt (k * f.one)) (hlow : -2 ^ 31 ≤ k) (hhigh : k < 2 ^ 31) :
    x.toInt32 = k := by
  cases x with
  | nan | infinite => cases h.isFinite
  | finite s m hm =>
  have hsigned : signed s m = k * f.one := Option.some.inj h.rank_eq
  have hpart : signed s (m / f.one) = k := by
    have hone : (f.one : Int) ≠ 0 := Int.natCast_ne_zero.mpr (Nat.ne_of_gt f.one_pos)
    rw [signed_div, hsigned, Int.mul_tdiv_cancel k hone]
  show clampInt (-2 ^ 31) (2 ^ 31 - 1) (signed s (m / f.one)) = k
  rw [hpart, clampInt]
  omega

/-! ## Truncation -/

/-- The whole ones among some units have no more bits than the units. -/
theorem fits_div_one_mul_one {m : Nat} (hm : f.Fits m) : f.Fits (m / f.one * f.one) := by
  have hle : m / f.one * f.one ≤ m := Nat.div_mul_le_self m f.one
  refine ⟨?_, Nat.lt_of_le_of_lt hle hm.2⟩
  rcases Nat.le_total f.scale (excess f.digits m) with hlong | hshort
  · have hdvd : f.one ∣ m := Nat.dvd_trans (Nat.pow_dvd_pow 2 hlong) hm.1
    rw [Nat.div_mul_cancel hdvd]
    exact hm.1
  · have hexcess := Nat.le_trans (excess_mono f.digits_pos hle) hshort
    exact Nat.dvd_trans (Nat.pow_dvd_pow 2 hexcess) (Nat.dvd_mul_left _ _)

/-- Reading an integer drops the fractional part, so it can be dropped before. -/
theorem toInt_trunc (low high : Int) (x : Binary f) : x.trunc.toInt low high = x.toInt low high := by
  cases x with
  | nan | infinite => rfl
  | finite s m hm =>
    have hfits := fits_div_one_mul_one hm
    have hkept : roundRatio f.digits (m / f.one * f.one) 1 = m / f.one * f.one := by
      have hmul := roundRatio_mul Nat.one_pos hfits.1
      rwa [Nat.mul_one] at hmul
    have htrunc : trunc (.finite s m hm) = .finite s (m / f.one * f.one) hfits := by
      simp only [trunc, mapWhole, ofUnits, hkept, dif_pos hfits.2]
    rw [htrunc, toInt, toInt, Nat.mul_div_cancel _ f.one_pos]

/-! ## Floor and ceiling -/

theorem neg_ofUnits (negative : Bool) (num den : Nat) :
    -(ofUnits negative num den : Binary f) = ofUnits (!negative) num den := by
  unfold ofUnits
  dsimp only
  split <;> rfl

/-- The ceiling is the floor on the other side of zero. -/
theorem ceil_eq_neg_floor_neg (x : Binary f) : x.ceil = -(-x).floor := by
  cases x with
  | nan => rfl
  | infinite s => cases s <;> rfl
  | finite s m hm =>
    cases s with
    | false => exact (neg_ofUnits true _ 1).symm
    | true => exact (neg_ofUnits false _ 1).symm

/-- The quotient of a negated count is rounded away from zero. -/
theorem neg_ceilUnits (f : Format) (m : Nat) : -(ceilUnits f m : Int) = -(m : Int) / f.one := by
  have hone := f.one_pos
  have hlow : ceilUnits f m * f.one ≤ m + f.one - 1 := Nat.div_mul_le_self _ _
  have hhigh : m + f.one - 1 < ceilUnits f m * f.one + f.one := by
    rw [← Nat.add_one_mul]
    exact (Nat.div_lt_iff_lt_mul hone).mp (Nat.lt_succ_self _)
  refine ((Int.ediv_eq_iff_of_pos (Int.natCast_pos.mpr hone)).mpr ?_).symm
  rw [Int.neg_mul, ← Int.natCast_mul]
  omega

theorem standsAt_floor (hf : f.HoldsWhole) (h : x.StandsAt a)
    (hk : (a / f.one).natAbs ≤ 2 ^ f.digits) : x.floor.StandsAt (a / f.one * f.one) := by
  apply standsAt_mul_one hf hk
  cases x with
  | nan | infinite => cases h.isFinite
  | finite s m hm =>
  rw [← Option.some.inj h.rank_eq]
  cases s with
  | false =>
    have hrank := rank_ofUnits (f := f) false (m / f.one * f.one) 1
    rwa [signed_false, Int.natCast_mul, Int.natCast_ediv] at hrank
  | true =>
    have hrank := rank_ofUnits (f := f) true (ceilUnits f m * f.one) 1
    rwa [signed_true, Int.natCast_mul, ← Int.neg_mul, neg_ceilUnits] at hrank

variable (hf : f.HoldsWhole) (hdigits : 31 ≤ f.digits) (h : x.StandsAt a)

include hf hdigits h

theorem toInt32_floor (hlow : -2 ^ 31 ≤ a / f.one) (hhigh : a / f.one < 2 ^ 31) :
    x.floor.toInt32 = a / f.one := by
  have hdigits : 2 ^ 31 ≤ 2 ^ f.digits := Nat.pow_le_pow_right (by decide) hdigits
  exact toInt32_of_standsAt (standsAt_floor hf h (by omega)) hlow hhigh

theorem toInt32_ceil (hlow : -2 ^ 31 < -a / f.one) (hhigh : -a / f.one ≤ 2 ^ 31) :
    x.ceil.toInt32 = -(-a / f.one) := by
  have hdigits : 2 ^ 31 ≤ 2 ^ f.digits := Nat.pow_le_pow_right (by decide) hdigits
  have hfloor := (standsAt_floor hf h.neg (by omega)).neg
  rw [← ceil_eq_neg_floor_neg, ← Int.neg_mul] at hfloor
  exact toInt32_of_standsAt hfloor (by omega) (by omega)

end Binary

end BenchCharts
