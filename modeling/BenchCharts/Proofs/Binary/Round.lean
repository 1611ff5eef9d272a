import BenchCharts.Proofs.Binary.Integer

/-!
# The nearest whole value

Nothing is lost when a value is rounded to a whole one: the whole value has few enough bits,
and so has the difference to it (`exists_standsAt_round`).  A value of many digits is whole
itself (`roundUnits_mul_one_of_le`), and otherwise the difference is a multiple of the lowest
bit of the value and not above it (`fits_sub_roundUnits`).
-/

namespace BenchCharts.Binary

variable {f : Format} {m : Nat}

/-! ## The nearest number of ones -/

/-- How many ones are nearest to a number of units. -/
def roundUnits (f : Format) (m : Nat) : Nat :=
  (2 * m + f.one) / (2 * f.one)

/-- The nearest number of ones is at most half of one away. -/
theorem roundUnits_bounds (f : Format) (m : Nat) :
    2 * (roundUnits f m * f.one) ≤ 2 * m + f.one ∧ 2 * m < 2 * (roundUnits f m * f.one) + f.one := by
  have hone := f.one_pos
  have hlow : roundUnits f m * (2 * f.one) ≤ 2 * m + f.one := Nat.div_mul_le_self _ _
  have hhigh : 2 * m + f.one < (roundUnits f m + 1) * (2 * f.one) :=
    (Nat.div_lt_iff_lt_mul (by omega)).mp (Nat.lt_succ_self _)
  rw [Nat.add_one_mul (roundUnits f m)] at hhigh
  rw [Nat.mul_left_comm] at hlow hhigh
  omega

theorem le_of_mul_one_lt (f : Format) {k l : Nat} (h : k * f.one < l * f.one + f.one) : k ≤ l := by
  rw [← Nat.add_one_mul l] at h
  exact Nat.le_of_lt_succ (Nat.lt_of_mul_lt_mul_right h)

section

variable (hm : f.Fits m)

include hm

theorem one_dvd_of_le (hlong : 2 ^ f.digits * f.one ≤ m) : f.one ∣ m := by
  rw [Format.two_pow_digits_mul_one] at hlong
  have hexcess : f.scale ≤ excess f.digits m := Nat.le_of_lt (lt_excess f.digits_pos hlong)
  exact Nat.dvd_trans (Nat.pow_dvd_pow 2 hexcess) hm.1

/-- A value that keeps no digit behind the point is its own nearest. -/
theorem roundUnits_mul_one_of_le (hlong : 2 ^ f.digits * f.one ≤ m) :
    roundUnits f m * f.one = m := by
  have hone := f.one_pos
  obtain ⟨hlow, hhigh⟩ := roundUnits_bounds f m
  obtain ⟨k, hk⟩ := one_dvd_of_le hm hlong
  rw [Nat.mul_comm] at hk
  have hle : roundUnits f m ≤ k := le_of_mul_one_lt f (by omega)
  have hge : k ≤ roundUnits f m := le_of_mul_one_lt f (by omega)
  rw [Nat.le_antisymm hle hge, hk]

theorem fits_roundUnits (hf : f.HoldsWhole) : f.Fits (roundUnits f m * f.one) := by
  rcases Nat.lt_or_ge m (2 ^ f.digits * f.one) with hshort | hlong
  · obtain ⟨hlow, -⟩ := roundUnits_bounds f m
    have hbits : roundUnits f m ≤ 2 ^ f.digits := le_of_mul_one_lt f (by omega)
    constructor
    · rcases Nat.eq_zero_or_pos (roundUnits f m) with hzero | hpos
      · rw [hzero, Nat.zero_mul]
        exact Nat.dvd_zero _
      · exact excess_mul_pow_le f.digits _ _ f.digits_pos hpos hbits
    · have hle := Nat.mul_le_mul_right f.one hbits
      rw [Format.two_pow_digits_mul_one] at hle
      exact Nat.lt_of_le_of_lt hle (Nat.pow_lt_pow_right (by decide) hf)
  · rw [roundUnits_mul_one_of_le hm hlong]
    exact hm

/-- The difference to the nearest number of ones has few bits too. -/
theorem fits_sub_roundUnits : f.Fits ((m : Int) - (roundUnits f m * f.one : Nat)).natAbs := by
  rcases Nat.lt_or_ge m (2 ^ f.digits * f.one) with hshort | hlong
  · obtain ⟨hlow, hhigh⟩ := roundUnits_bounds f m
    rw [Format.two_pow_digits_mul_one] at hshort
    have hone : 2 ^ excess f.digits m ∣ f.one :=
      Nat.pow_dvd_pow 2 (excess_le f.digits_pos hshort)
    have hdvd : 2 ^ excess f.digits m ∣ ((m : Int) - (roundUnits f m * f.one : Nat)).natAbs := by
      rw [← Int.ofNat_dvd_left]
      exact Int.dvd_sub (Int.natCast_dvd_natCast.mpr hm.1)
        (Int.natCast_dvd_natCast.mpr (Nat.dvd_mul_left_of_dvd hone _))
    have hle : ((m : Int) - (roundUnits f m * f.one : Nat)).natAbs ≤ m := by
      rcases Nat.eq_zero_or_pos (roundUnits f m) with hzero | hpos
      · rw [hzero, Nat.zero_mul]
        omega
      · have hsome := Nat.le_mul_of_pos_left f.one hpos
        omega
    exact ⟨Nat.dvd_trans (Nat.pow_dvd_pow 2 (excess_mono f.digits_pos hle)) hdvd,
      Nat.lt_of_le_of_lt hle hm.2⟩
  · rw [roundUnits_mul_one_of_le hm hlong, Int.sub_self]
    exact f.fits_zero

end

/-! ## The nearest whole value -/

/-- What fits is not rounded. -/
theorem standsAt_of_fits {x : Binary f} {a : Int} (hx : x.rank = some (f.nearest a 1))
    (ha : f.Fits a.natAbs) : x.StandsAt a := by
  have hexact := Format.nearest_mul (f := f) Nat.one_pos ha.1 (Nat.le_of_lt ha.2)
  rw [Int.natCast_one, Int.mul_one] at hexact
  rw [hexact] at hx
  exact standsAt_of_rank hx ha.2

/-- The nearest whole value and the difference to it are both exact, and the difference is at
most half of one. -/
theorem exists_standsAt_round (hf : f.HoldsWhole) {x : Binary f} {a : Int} (h : x.StandsAt a) :
    ∃ k : Int, x.round.StandsAt (k * f.one) ∧ (x - x.round).StandsAt (a - k * f.one) ∧
      2 * (a - k * f.one).natAbs ≤ f.one := by
  cases x with
  | nan | infinite => cases h.isFinite
  | finite s m hm =>
  rw [← Option.some.inj h.rank_eq]
  have hround : signed s (roundUnits f m) * f.one = signed s (roundUnits f m * f.one) := by
    have hmul := signed_mul s false (roundUnits f m) f.one
    rw [Bool.bne_false, signed_false] at hmul
    exact hmul.symm
  have hdiff : (signed s m - signed s (roundUnits f m * f.one)).natAbs
      = ((m : Int) - (roundUnits f m * f.one : Nat)).natAbs := by
    cases s with
    | false => rw [signed_false, signed_false]
    | true =>
      rw [signed_true, signed_true]
      omega
  have hwhole : (round (finite s m hm)).StandsAt (signed s (roundUnits f m * f.one)) := by
    apply standsAt_of_fits (rank_ofUnits s (roundUnits f m * f.one) 1)
    rw [natAbs_signed]
    exact fits_roundUnits hm hf
  refine ⟨signed s (roundUnits f m), ?_, ?_, ?_⟩ <;> rw [hround]
  · exact hwhole
  · apply standsAt_of_fits (rank_sub ⟨rfl, rfl⟩ hwhole)
    rw [hdiff]
    exact fits_sub_roundUnits hm
  · obtain ⟨hlow, hhigh⟩ := roundUnits_bounds f m
    rw [hdiff]
    omega

end BenchCharts.Binary
