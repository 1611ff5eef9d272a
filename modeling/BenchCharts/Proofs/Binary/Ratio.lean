import BenchCharts.Binary.Basic
import BenchCharts.Proofs.Binary.Nearest
import Mathlib.Data.Rat.Lemmas
import Mathlib.Tactic.Linarith

/-!
# Which fractions a magnitude is the nearest to

Rounding depends on the quotient and not on the fraction that it is written as
(`roundRatio_le_of_mul_le`), so it is a function of the rational number
(`Format.magnitude`), which keeps the order.  What is rounded to a magnitude is therefore
an interval of rational numbers.  `roundRatio_le_of_near`, `le_roundRatio_of_near` and
`le_roundRatio_of_very_near` say how far it reaches: half the step of the magnitude to both
sides, but only a quarter below a power of two, where the next smaller step begins.
-/

namespace BenchCharts

namespace Binary

theorem roundHalfEven_mul_mul (num den : Nat) {k : Nat} (hk : 0 < k) :
    roundHalfEven (num * k) (den * k) = roundHalfEven num den := by
  have htwice : 2 * (num % den * k) = 2 * (num % den) * k := (Nat.mul_assoc _ _ _).symm
  simp only [roundHalfEven, Nat.mul_div_mul_right _ _ hk, Nat.mul_mod_mul_right, htwice,
    Nat.mul_lt_mul_right hk, Nat.mul_left_inj (Nat.ne_of_gt hk)]

theorem roundRatio_mul_mul (digits num den : Nat) {k : Nat} (hk : 0 < k) :
    roundRatio digits (num * k) (den * k) = roundRatio digits num den := by
  simp only [roundRatio, Nat.mul_div_mul_right _ _ hk]
  rw [Nat.mul_right_comm, roundHalfEven_mul_mul _ _ hk]

section

variable {digits : Nat} (hdigits : 0 < digits) {num den m : Nat}

include hdigits

/-- Larger fractions do not round to smaller numbers. -/
theorem roundRatio_le_of_mul_le {num' den' : Nat} (hden : 0 < den) (hden' : 0 < den')
    (h : num * den' ≤ num' * den) : roundRatio digits num den ≤ roundRatio digits num' den' := by
  rw [← roundRatio_mul_mul digits num den hden', ← roundRatio_mul_mul digits num' den' hden,
    Nat.mul_comm den' den]
  exact roundRatio_mono hdigits (Nat.mul_pos hden hden') h

omit hdigits in
theorem roundRatio_eq_of_excess {e : Nat} (h : excess digits (num / den) = e) :
    roundRatio digits num den = roundHalfEven num (den * 2 ^ e) * 2 ^ e := by
  simp only [roundRatio, h]

/-! ## Around a magnitude -/

variable (hden : 0 < den)

include hden

omit hdigits in
/-- With one step for both, a quotient and a magnitude are compared by roundings to integers. -/
theorem le_roundRatio_of_excess {e : Nat} (hdvd : 2 ^ e ∣ m)
    (hsame : excess digits (num / den) = e) (hnear : 2 * (m * den) < 2 * num + 2 ^ e * den) :
    m ≤ roundRatio digits num den := by
  obtain ⟨k, rfl⟩ := exists_eq_mul_left_of_dvd hdvd
  have hk : k * 2 ^ e * den = k * (den * 2 ^ e) := by rw [Nat.mul_assoc, Nat.mul_comm den]
  rw [roundRatio_eq_of_excess hsame]
  apply Nat.mul_le_mul_right
  apply (le_roundHalfEven_iff num (Nat.mul_pos hden (Nat.two_pow_pos e)) k).mpr
  rw [← hk, Nat.mul_comm den]
  exact .inl hnear

omit hdigits in
theorem roundRatio_le_of_excess {e : Nat} (hdvd : 2 ^ e ∣ m)
    (hsame : excess digits (num / den) = e) (hnear : 2 * num < 2 * (m * den) + 2 ^ e * den) :
    roundRatio digits num den ≤ m := by
  obtain ⟨k, rfl⟩ := exists_eq_mul_left_of_dvd hdvd
  have hk : k * 2 ^ e * den = k * (den * 2 ^ e) := by rw [Nat.mul_assoc, Nat.mul_comm den]
  rw [roundRatio_eq_of_excess hsame]
  apply Nat.mul_le_mul_right
  apply (roundHalfEven_le_iff num (Nat.mul_pos hden (Nat.two_pow_pos e)) k).mpr
  rw [← hk, Nat.mul_comm den]
  exact .inl hnear

variable (h : 2 ^ excess digits m ∣ m)

include h

/-- Less than half a step above a magnitude. -/
theorem roundRatio_le_of_near (hnear : 2 * num < 2 * (m * den) + 2 ^ excess digits m * den) :
    roundRatio digits num den ≤ m := by
  rcases Nat.le_total num (m * den) with hle | hge
  · exact roundRatio_le hdigits hden h hle
  · refine roundRatio_le_of_excess hden h ?_ hnear
    apply Nat.le_antisymm
    · apply excess_le hdigits
      rw [Nat.div_lt_iff_lt_mul hden]
      have hbound := Nat.mul_le_mul_right den (add_pow_excess_dvd hdigits h).1
      rw [Nat.add_mul] at hbound
      omega
    · exact excess_mono hdigits ((Nat.le_div_iff_mul_le hden).mpr hge)

/-- Less than half a step below a magnitude, unless the step there is smaller. -/
theorem le_roundRatio_of_le_excess (hexcess : excess digits m ≤ excess digits (num / den))
    (hnear : 2 * (m * den) < 2 * num + 2 ^ excess digits m * den) :
    m ≤ roundRatio digits num den := by
  rcases Nat.le_total (m * den) num with hge | hle
  · exact le_roundRatio hdigits hden h hge
  · have hquotient : num / den ≤ m := Nat.div_le_of_le_mul (by rwa [Nat.mul_comm])
    have hsame := Nat.le_antisymm (excess_mono hdigits hquotient) hexcess
    exact le_roundRatio_of_excess hden h hsame hnear

/-- Less than half a step below a magnitude.  A power of two is excepted: the numbers below
it have a smaller step. -/
theorem le_roundRatio_of_near (hm : m ≠ 2 ^ (digits - 1 + excess digits m))
    (hnear : 2 * (m * den) < 2 * num + 2 ^ excess digits m * den) :
    m ≤ roundRatio digits num den := by
  refine le_roundRatio_of_le_excess hdigits hden h ?_ hnear
  by_contra hlt
  -- the next power of two below lies a whole step away
  have hlow := pow_excess_le hdigits (Nat.zero_lt_of_lt (Nat.lt_of_not_le hlt))
  have hstep : 2 ^ (digits - 1 + excess digits m) + 2 ^ excess digits m ≤ m := by
    have hdvd := Nat.dvd_sub h
      (Nat.pow_dvd_pow 2 (Nat.le_add_left (excess digits m) (digits - 1)))
    have hle := Nat.le_of_dvd (by omega) hdvd
    omega
  have hscaled := Nat.mul_le_mul_right den hstep
  rw [Nat.add_mul] at hscaled
  have hlong : 2 ^ (digits - 1 + excess digits m) ≤ num / den :=
    (Nat.le_div_iff_mul_le hden).mpr (by omega)
  exact hlt (le_excess hdigits hlong)

/-- Less than a quarter of a step below a magnitude. -/
theorem le_roundRatio_of_very_near
    (hnear : 4 * (m * den) < 4 * num + 2 ^ excess digits m * den) :
    m ≤ roundRatio digits num den := by
  by_cases hm : m = 2 ^ (digits - 1 + excess digits m)
  · rcases Nat.lt_or_ge num (m * den) with hlt | hge
    · rcases Nat.lt_or_ge (excess digits (num / den)) (excess digits m) with hsmaller | hexcess
      · -- below the power of two the step is half as wide
        obtain ⟨e, he⟩ : ∃ e, excess digits m = e + 1 := ⟨excess digits m - 1, by omega⟩
        have hdouble : 2 ^ (digits - 1 + excess digits m) = 2 * 2 ^ (digits - 1 + e) := by
          rw [he, ← Nat.add_assoc, Nat.pow_succ']
        have hstep : 2 ^ excess digits m = 2 * 2 ^ e := by rw [he, Nat.pow_succ']
        have hnarrow : 2 ^ e ≤ 2 ^ (digits - 1 + e) :=
          Nat.pow_le_pow_right (by decide) (Nat.le_add_left _ _)
        have hscaled := Nat.mul_le_mul_right den hnarrow
        have hpower : m * den = 2 * (2 ^ (digits - 1 + e) * den) := by
          rw [hm, hdouble, Nat.mul_assoc]
        rw [hstep, Nat.mul_assoc] at hnear
        have hlong : 2 ^ (digits - 1 + e) ≤ num / den :=
          (Nat.le_div_iff_mul_le hden).mpr (by omega)
        have hle := le_excess hdigits hlong
        have hdvd : 2 ^ e ∣ m := Nat.dvd_trans (Nat.pow_dvd_pow 2 (by omega)) h
        exact le_roundRatio_of_excess hden hdvd (by omega) (by omega)
      · exact le_roundRatio_of_le_excess hdigits hden h hexcess (by omega)
    · exact le_roundRatio hdigits hden h hge
  · exact le_roundRatio_of_near hdigits hden h hm (by omega)

end

end Binary

/-! ## Rational numbers -/

namespace Format

open Binary

/-- The magnitude that a rational number of ones is rounded to. -/
def magnitude (f : Format) (q : ℚ) : Nat :=
  roundRatio f.digits (q.num.toNat * f.one) q.den

variable {f : Format} {q r : ℚ} {m : Nat}

theorem eq_div_of_nonneg (h : 0 ≤ q) : q = (q.num.toNat : ℚ) / q.den := by
  have hnum : ((q.num.toNat : Int) : ℚ) = q.num := by
    rw [Int.toNat_of_nonneg (Rat.num_nonneg.mpr h)]
  rw [← Int.cast_natCast q.num.toNat, hnum, Rat.num_div_den]

/-- The fraction that a number is written as does not matter. -/
theorem magnitude_of_eq_div {num den : Nat} (hden : 0 < den) (hq : q = num / den) :
    f.magnitude q = roundRatio f.digits (num * f.one) den := by
  have hpos : (0 : ℚ) < den := Nat.cast_pos.mpr hden
  have hqpos : (0 : ℚ) < q.den := Nat.cast_pos.mpr q.den_pos
  have hnonneg : 0 ≤ q := hq ▸ div_nonneg (Nat.cast_nonneg num) (Nat.cast_nonneg den)
  have hcross : q.num.toNat * den = num * q.den := by
    have hsame := hq.symm.trans (eq_div_of_nonneg hnonneg)
    rw [div_eq_div_iff hpos.ne' hqpos.ne'] at hsame
    exact_mod_cast hsame.symm
  apply Nat.le_antisymm
  · apply roundRatio_le_of_mul_le f.digits_pos q.den_pos hden
    rw [Nat.mul_right_comm, hcross, Nat.mul_right_comm]
  · apply roundRatio_le_of_mul_le f.digits_pos hden q.den_pos
    rw [Nat.mul_right_comm, ← hcross, Nat.mul_right_comm]

/-- A larger number does not have a smaller magnitude. -/
theorem magnitude_mono (h : q ≤ r) : f.magnitude q ≤ f.magnitude r := by
  apply roundRatio_le_of_mul_le f.digits_pos q.den_pos r.den_pos
  rw [Nat.mul_right_comm, Nat.mul_right_comm _ f.one]
  apply Nat.mul_le_mul_right
  have hcross := (Rat.le_iff q r).mp h
  rcases Int.le_total q.num 0 with hneg | hpos
  · rw [Int.toNat_of_nonpos hneg, Nat.zero_mul]
    exact Nat.zero_le _
  · have hrpos : 0 ≤ r.num := Rat.num_nonneg.mpr (le_trans (Rat.num_nonneg.mp hpos) h)
    rw [← Int.ofNat_le, Int.natCast_mul, Int.natCast_mul, Int.toNat_of_nonneg hpos,
      Int.toNat_of_nonneg hrpos]
    exact hcross

/-- What lies between two numbers of one magnitude has it itself. -/
theorem magnitude_eq_of_between {p : ℚ} (hp : f.magnitude p = m) (hr : f.magnitude r = m)
    (h : p ≤ q) (h' : q ≤ r) : f.magnitude q = m :=
  Nat.le_antisymm (hr ▸ magnitude_mono h') (hp ▸ magnitude_mono h)

/-- A value has its own magnitude. -/
theorem magnitude_div_one (h : f.Fits m) : f.magnitude (m / f.one) = m := by
  rw [magnitude_of_eq_div f.one_pos rfl, roundRatio_mul f.one_pos h.1]

theorem magnitude_zero : f.magnitude 0 = 0 := by
  simp [magnitude, roundRatio, roundHalfEven]

/-- A natural number is rounded to a whole number of ones. -/
theorem one_dvd_magnitude (n : Nat) : f.one ∣ f.magnitude n := by
  have hq : (n : ℚ) = n / (1 : Nat) := by rw [Nat.cast_one, div_one]
  rw [magnitude_of_eq_div Nat.one_pos hq, roundRatio_one, one]
  generalize hexcess : excess f.digits (n * 2 ^ f.scale) = e
  rcases Nat.le_total f.scale e with hle | hge
  · exact Nat.dvd_mul_left_of_dvd (Nat.pow_dvd_pow 2 hle) _
  · have hdvd : 2 ^ e ∣ n * 2 ^ f.scale := Nat.dvd_mul_left_of_dvd (Nat.pow_dvd_pow 2 hge) n
    obtain ⟨k, hk⟩ := hdvd
    rw [hk, Nat.mul_comm (2 ^ e) k, roundHalfEven_mul _ _ (Nat.two_pow_pos e),
      Nat.mul_comm k, ← hk]
    exact Nat.dvd_mul_left _ n

/-- The distance from a magnitude to the next one. -/
def step (f : Format) (m : Nat) : Nat :=
  2 ^ excess f.digits m

section

variable (hq : 0 ≤ q) (h : f.Fits m)

include hq

/-- The numerator of a number of units, over the denominator of the number. -/
theorem num_mul_one : ((q.num.toNat * f.one : Nat) : ℚ) = q * f.one * q.den := by
  have hden : (q.den : ℚ) ≠ 0 := Nat.cast_ne_zero.mpr q.den_nz
  have hnum : (q.num.toNat : ℚ) = q * q.den := (div_eq_iff hden).mp (eq_div_of_nonneg hq).symm
  rw [Nat.cast_mul, hnum, mul_right_comm]

theorem num_mul_one_lt {x : ℚ} (hx : q * f.one < x) :
    ((q.num.toNat * f.one : Nat) : ℚ) < x * q.den := by
  rw [num_mul_one hq]
  exact mul_lt_mul_of_pos_right hx (Nat.cast_pos.mpr q.den_pos)

theorem lt_num_mul_one {x : ℚ} (hx : x < q * f.one) :
    x * q.den < ((q.num.toNat * f.one : Nat) : ℚ) := by
  rw [num_mul_one hq]
  exact mul_lt_mul_of_pos_right hx (Nat.cast_pos.mpr q.den_pos)

include h

theorem magnitude_le_of_near (hnear : q * f.one < m + f.step m / 2) : f.magnitude q ≤ m := by
  apply roundRatio_le_of_near f.digits_pos q.den_pos h.1
  have hscaled := num_mul_one_lt hq hnear
  have hunits : (2 * (q.num.toNat * f.one : Nat) : ℚ) < 2 * (m * q.den) + f.step m * q.den := by
    linarith
  exact_mod_cast hunits

theorem le_magnitude_of_near (hm : m ≠ 2 ^ (f.digits - 1 + excess f.digits m))
    (hnear : m - f.step m / 2 < q * f.one) : m ≤ f.magnitude q := by
  apply le_roundRatio_of_near f.digits_pos q.den_pos h.1 hm
  have hscaled := lt_num_mul_one hq hnear
  have hunits : (2 * (m * q.den) : ℚ) < 2 * (q.num.toNat * f.one : Nat) + f.step m * q.den := by
    linarith
  exact_mod_cast hunits

theorem le_magnitude_of_very_near (hnear : m - f.step m / 4 < q * f.one) :
    m ≤ f.magnitude q := by
  apply le_roundRatio_of_very_near f.digits_pos q.den_pos h.1
  have hscaled := lt_num_mul_one hq hnear
  have hunits : (4 * (m * q.den) : ℚ) < 4 * (q.num.toNat * f.one : Nat) + f.step m * q.den := by
    linarith
  exact_mod_cast hunits

end

end Format

end BenchCharts
