/-!
# Rounding to nearest on the natural numbers

A quotient of naturals is rounded to an integer (`roundHalfEven`) and then to a
natural with a bounded number of significant bits (`roundRatio`).  In both a
tie goes to the even neighbour.

The lemmas say that the integer lies beside the quotient
(`div_le_roundHalfEven`, `roundHalfEven_le`), that an exact quotient is kept
(`roundHalfEven_mul`), and that the second rounding keeps at most `digits`
significant bits (`dvd_roundRatio`).
-/

-- A power with a natural exponent means the same whatever else is imported.
attribute [instance (high)] instPowNat
attribute [default_instance (10000)] instPowNat

namespace BenchCharts.Binary

/-! ## Rounding to an integer -/

/-- The integer nearest to `num / den`; a tie goes to the even one. -/
def roundHalfEven (num den : Nat) : Nat :=
  let quotient := num / den
  let twice := 2 * (num % den)
  if den < twice ∨ (twice = den ∧ quotient % 2 = 1) then quotient + 1 else quotient

theorem div_le_roundHalfEven (num den : Nat) : num / den ≤ roundHalfEven num den := by
  simp only [roundHalfEven]
  split <;> omega

theorem roundHalfEven_le (num den : Nat) : roundHalfEven num den ≤ num / den + 1 := by
  simp only [roundHalfEven]
  split <;> omega

/-- A quotient without remainder is its own rounding. -/
theorem roundHalfEven_mul (k den : Nat) (h : 0 < den) : roundHalfEven (k * den) den = k := by
  simp only [roundHalfEven, Nat.mul_mod_left, Nat.mul_div_cancel k h]
  split <;> omega

/-! ## Rounding to significant bits -/

/-- How many low bits a magnitude loses when `digits` significant bits are kept. -/
def excess (digits magnitude : Nat) : Nat :=
  magnitude.log2 + 1 - digits

/-- The natural with at most `digits` significant bits nearest to `num / den`;
a tie goes to the one whose last kept bit is zero. -/
def roundRatio (digits num den : Nat) : Nat :=
  let step := 2 ^ excess digits (num / den)
  roundHalfEven num (den * step) * step

private theorem div_lt_pow_add_excess (digits num den : Nat) :
    num / den < 2 ^ (digits + excess digits (num / den)) := by
  refine Nat.lt_of_lt_of_le Nat.lt_log2_self ?_
  exact Nat.pow_le_pow_right (by decide) (by simp only [excess]; omega)

theorem roundHalfEven_le_pow (digits num den : Nat) :
    roundHalfEven num (den * 2 ^ excess digits (num / den)) ≤ 2 ^ digits := by
  refine Nat.le_trans (roundHalfEven_le _ _) ?_
  have hbound := div_lt_pow_add_excess digits num den
  rw [Nat.pow_add] at hbound
  have hdiv := (Nat.div_lt_iff_lt_mul (Nat.two_pow_pos _)).mpr hbound
  rw [Nat.div_div_eq_div_mul] at hdiv
  exact hdiv

theorem excess_mul_pow_le (digits k s : Nat) (hdigits : 0 < digits) (hpos : 0 < k)
    (hk : k ≤ 2 ^ digits) : 2 ^ excess digits (k * 2 ^ s) ∣ k * 2 ^ s := by
  have hne : k * 2 ^ s ≠ 0 := Nat.ne_of_gt (Nat.mul_pos hpos (Nat.two_pow_pos s))
  rcases Nat.lt_or_ge k (2 ^ digits) with hlt | hge
  · have hlog : (k * 2 ^ s).log2 < digits + s := by
      rw [Nat.log2_lt hne, Nat.pow_add]
      exact Nat.mul_lt_mul_of_pos_right hlt (Nat.two_pow_pos s)
    have hexcess : excess digits (k * 2 ^ s) ≤ s := by simp only [excess]; omega
    exact Nat.dvd_trans (Nat.pow_dvd_pow 2 hexcess) (Nat.dvd_mul_left _ _)
  · have hpow : k * 2 ^ s = 2 ^ (digits + s) := by
      rw [Nat.le_antisymm hk hge, Nat.pow_add]
    rw [hpow]
    refine Nat.pow_dvd_pow 2 ?_
    simp only [excess, Nat.log2_two_pow]
    omega

/-- The result has at most `digits` significant bits. -/
theorem dvd_roundRatio (digits num den : Nat) (hdigits : 0 < digits) :
    2 ^ excess digits (roundRatio digits num den) ∣ roundRatio digits num den := by
  simp only [roundRatio]
  rcases Nat.eq_zero_or_pos
      (roundHalfEven num (den * 2 ^ excess digits (num / den))) with hzero | hpos
  · rw [hzero, Nat.zero_mul]
    exact Nat.dvd_zero _
  · exact excess_mul_pow_le digits _ _ hdigits hpos (roundHalfEven_le_pow digits num den)

end BenchCharts.Binary
