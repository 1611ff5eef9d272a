import BenchCharts.Binary.Rounding

/-!
# Which natural is the nearest

`le_roundHalfEven_iff` says which integers are at most the rounded quotient, ties
included; the other facts about the first rounding follow from it.  The second one
keeps the order of its numerators (`roundRatio_mono`) and every number that has few
enough bits (`roundRatio_mul`), so a number with few bits that is a bound of the
quotient is one of the rounded quotient.

`roundRatio_sub_lt_add_iff` is about a number and a power of two: one unit below and
one unit above round to different numbers unless the number has lost the unit and,
with it, the next bit.
-/

namespace BenchCharts.Binary

/-! ## Rounding to an integer -/

/-- The rounded quotient is at least `k` if the quotient is above `k - 1 / 2`, or is that
and `k` is even. -/
theorem le_roundHalfEven_iff (num : Nat) {den : Nat} (hden : 0 < den) (k : Nat) :
    k ≤ roundHalfEven num den
      ↔ 2 * (k * den) < 2 * num + den ∨ 2 * (k * den) = 2 * num + den ∧ k % 2 = 0 := by
  have hnum := Nat.div_add_mod' num den
  have hlt := Nat.mod_lt num hden
  have hbelow := div_le_roundHalfEven num den
  have habove := roundHalfEven_le num den
  rcases Nat.lt_trichotomy k (num / den + 1) with hk | hk | hk
  · have hmul := Nat.mul_le_mul_right den (Nat.lt_succ_iff.mp hk)
    omega
  · rw [hk, Nat.add_one_mul (num / den) den]
    simp only [roundHalfEven]
    split <;> omega
  · have hmul := Nat.mul_le_mul_right den (Nat.succ_le_of_lt hk)
    rw [Nat.succ_mul, Nat.add_one_mul (num / den) den] at hmul
    omega

/-- The rounded quotient is at most `k` if the quotient is below `k + 1 / 2`, or is that
and `k` is even. -/
theorem roundHalfEven_le_iff (num : Nat) {den : Nat} (hden : 0 < den) (k : Nat) :
    roundHalfEven num den ≤ k
      ↔ 2 * num < 2 * (k * den) + den ∨ 2 * num = 2 * (k * den) + den ∧ k % 2 = 0 := by
  have h := le_roundHalfEven_iff num hden (k + 1)
  rw [Nat.add_one_mul k den] at h
  omega

theorem roundHalfEven_mono {a b den : Nat} (hden : 0 < den) (h : a ≤ b) :
    roundHalfEven a den ≤ roundHalfEven b den := by
  have ha := (le_roundHalfEven_iff a hden _).mp (Nat.le_refl _)
  apply (le_roundHalfEven_iff b hden _).mpr
  omega

/-! ## Rounding to significant bits -/

section

variable {digits : Nat} (hdigits : 0 < digits)

include hdigits

/-- A number of at most `digits + e` bits loses at most `e` of them. -/
theorem excess_le {n e : Nat} (h : n < 2 ^ (digits + e)) : excess digits n ≤ e := by
  rcases Nat.eq_zero_or_pos n with rfl | hpos
  · simp only [excess, Nat.log2_zero]
    omega
  · have hlog := (Nat.log2_lt (Nat.ne_of_gt hpos)).mpr h
    simp only [excess]
    omega

/-- A number of at least `digits + e` bits loses at least `e` of them. -/
theorem le_excess {n e : Nat} (h : 2 ^ (digits - 1 + e) ≤ n) : e ≤ excess digits n := by
  have hne : n ≠ 0 := Nat.ne_of_gt (Nat.lt_of_lt_of_le (Nat.two_pow_pos _) h)
  have hlog := (Nat.le_log2 hne).mpr h
  simp only [excess]
  omega

theorem excess_eq {n e : Nat} (hlow : 2 ^ (digits - 1 + e) ≤ n) (hhigh : n < 2 ^ (digits + e)) :
    excess digits n = e :=
  Nat.le_antisymm (excess_le hdigits hhigh) (le_excess hdigits hlow)

/-- A number that loses bits is at least as large as its lowest bit says. -/
theorem pow_excess_le {n : Nat} (h : 0 < excess digits n) :
    2 ^ (digits - 1 + excess digits n) ≤ n := by
  have hne : n ≠ 0 := by
    intro hzero
    rw [hzero] at h
    simp only [excess, Nat.log2_zero] at h
    omega
  have hlog : n.log2 = digits - 1 + excess digits n := by
    simp only [excess] at h ⊢
    omega
  rw [← hlog]
  exact Nat.log2_self_le hne

theorem excess_mono {m n : Nat} (h : m ≤ n) : excess digits m ≤ excess digits n := by
  rcases Nat.eq_zero_or_pos (excess digits m) with hzero | hpos
  · rw [hzero]
    exact Nat.zero_le _
  · exact le_excess hdigits (Nat.le_trans (pow_excess_le hdigits hpos) h)

/-- Larger numerators do not round to smaller numbers. -/
theorem roundRatio_mono {a b den : Nat} (hden : 0 < den) (h : a ≤ b) :
    roundRatio digits a den ≤ roundRatio digits b den := by
  have hquotient : a / den ≤ b / den := Nat.div_le_div_right h
  rcases Nat.eq_or_lt_of_le (excess_mono hdigits hquotient) with hsame | hlt
  · simp only [roundRatio, hsame]
    apply Nat.mul_le_mul_right
    exact roundHalfEven_mono (Nat.mul_pos hden (Nat.two_pow_pos _)) h
  · -- a power of two separates the numbers of different lengths
    have hlow : roundRatio digits a den ≤ 2 ^ (digits + excess digits (a / den)) := by
      rw [Nat.pow_add]
      exact Nat.mul_le_mul_right _ (roundHalfEven_le_pow digits a den)
    have hmiddle : 2 ^ (digits + excess digits (a / den))
        ≤ 2 ^ (digits - 1) * 2 ^ excess digits (b / den) := by
      rw [← Nat.pow_add]
      exact Nat.pow_le_pow_right (by decide) (by omega)
    have hhigh : 2 ^ (digits - 1) ≤ roundHalfEven b (den * 2 ^ excess digits (b / den)) := by
      refine Nat.le_trans ?_ (div_le_roundHalfEven _ _)
      rw [← Nat.div_div_eq_div_mul, Nat.le_div_iff_mul_le (Nat.two_pow_pos _), ← Nat.pow_add]
      exact pow_excess_le hdigits (by omega)
    exact Nat.le_trans hlow (Nat.le_trans hmiddle (Nat.mul_le_mul_right _ hhigh))

omit hdigits in
/-- A number with few bits is its own rounding. -/
theorem roundRatio_mul {n den : Nat} (hden : 0 < den) (h : 2 ^ excess digits n ∣ n) :
    roundRatio digits (n * den) den = n := by
  have hn := Nat.div_mul_cancel h
  have hnum : n * den = n / 2 ^ excess digits n * (den * 2 ^ excess digits n) := by
    rw [Nat.mul_comm den, ← Nat.mul_assoc, hn]
  simp only [roundRatio, Nat.mul_div_cancel n hden]
  rw [hnum, roundHalfEven_mul _ _ (Nat.mul_pos hden (Nat.two_pow_pos _)), hn]

theorem le_roundRatio {n num den : Nat} (hden : 0 < den) (h : 2 ^ excess digits n ∣ n)
    (hle : n * den ≤ num) : n ≤ roundRatio digits num den := by
  have hmono := roundRatio_mono hdigits hden hle
  rw [roundRatio_mul hden h] at hmono
  exact hmono

theorem roundRatio_le {n num den : Nat} (hden : 0 < den) (h : 2 ^ excess digits n ∣ n)
    (hle : num ≤ n * den) : roundRatio digits num den ≤ n := by
  have hmono := roundRatio_mono hdigits hden hle
  rw [roundRatio_mul hden h] at hmono
  exact hmono

theorem excess_two_pow_dvd (e : Nat) : 2 ^ excess digits (2 ^ e) ∣ 2 ^ e := by
  apply Nat.pow_dvd_pow 2
  simp only [excess, Nat.log2_two_pow]
  omega

/-! ## A power of two more and less -/

/-- The next number with as few low bits does not have too many bits. -/
theorem add_pow_excess_dvd {m : Nat} (h : 2 ^ excess digits m ∣ m) :
    m + 2 ^ excess digits m ≤ 2 ^ (digits + excess digits m) ∧
      2 ^ excess digits (m + 2 ^ excess digits m) ∣ m + 2 ^ excess digits m := by
  have hm := Nat.div_mul_cancel h
  have hnext : (m / 2 ^ excess digits m + 1) * 2 ^ excess digits m = m + 2 ^ excess digits m := by
    rw [Nat.add_one_mul, hm]
  have hlt : m < 2 ^ digits * 2 ^ excess digits m := by
    rw [← Nat.pow_add]
    refine Nat.lt_of_lt_of_le Nat.lt_log2_self (Nat.pow_le_pow_right (by decide) ?_)
    simp only [excess]
    omega
  have hk : m / 2 ^ excess digits m + 1 ≤ 2 ^ digits :=
    (Nat.div_lt_iff_lt_mul (Nat.two_pow_pos _)).mpr hlt
  rw [← hnext, Nat.pow_add]
  exact ⟨Nat.mul_le_mul_right _ hk,
    excess_mul_pow_le digits _ _ hdigits (Nat.succ_pos _) hk⟩

omit hdigits in
theorem roundRatio_one (n : Nat) :
    roundRatio digits n 1
      = roundHalfEven n (2 ^ excess digits n) * 2 ^ excess digits n := by
  simp only [roundRatio, Nat.div_one, Nat.one_mul]

/-- A power of two more makes a difference as long as no bit in its place is lost, and
also if that bit is the only one that is lost and the next one is set. -/
theorem lt_roundRatio_add {m s : Nat} (h : 2 ^ excess digits m ∣ m)
    (hm : m < 2 ^ (digits + s) ∨ ¬2 ^ (s + 2) ∣ m) : m < roundRatio digits (m + 2 ^ s) 1 := by
  obtain ⟨hbound, hnext⟩ := add_pow_excess_dvd hdigits h
  refine Nat.lt_of_lt_of_le (Nat.lt_add_of_pos_right (Nat.two_pow_pos (excess digits m))) ?_
  rcases Nat.lt_or_ge s (excess digits m) with hlt | hge
  · -- the sum lies halfway between `m` and the next number, which is even
    have hset : ¬2 ^ (s + 2) ∣ m :=
      hm.resolve_left fun hshort => Nat.not_le.mpr hlt (excess_le hdigits hshort)
    have hbits : excess digits m = s + 1 := by
      refine Nat.le_antisymm (Nat.not_lt.mp fun hmore => ?_) hlt
      exact hset (Nat.dvd_trans (Nat.pow_dvd_pow 2 hmore) h)
    have hlow := pow_excess_le hdigits (Nat.zero_lt_of_lt hlt)
    have hpow : 2 ^ (s + 1) = 2 * 2 ^ s := Nat.pow_succ'
    have hpos := Nat.two_pow_pos s
    rw [hbits] at h hbound hlow ⊢
    have hsum : excess digits (m + 2 ^ s) = s + 1 := by
      apply excess_eq hdigits <;> omega
    obtain ⟨k, rfl⟩ := h
    have hodd : k % 2 ≠ 0 := fun heven =>
      hset (Nat.mul_dvd_mul_left (2 ^ (s + 1)) (Nat.dvd_of_mod_eq_zero heven))
    rw [roundRatio_one, hsum, Nat.mul_comm _ k, ← Nat.add_one_mul k]
    apply Nat.mul_le_mul_right
    apply (le_roundHalfEven_iff _ (Nat.two_pow_pos _) _).mpr
    rw [Nat.add_one_mul k]
    omega
  · apply le_roundRatio hdigits Nat.one_pos hnext
    rw [Nat.mul_one]
    exact Nat.add_le_add_left (Nat.pow_le_pow_right (by decide) hge) m

/-- Rounding does not bring a number back that lost exactly the bits above its place. -/
theorem roundRatio_two_pow_sub_lt (s : Nat) :
    roundRatio digits (2 ^ (digits + s) - 2 ^ s) 1 < 2 ^ (digits + s) := by
  have hdiff : 2 ^ (digits + s) - 2 ^ s = (2 ^ digits - 1) * 2 ^ s := by
    rw [Nat.pow_add, Nat.sub_mul, Nat.one_mul]
  have hpos := Nat.two_pow_pos s
  have hpow := Nat.one_lt_two_pow (Nat.ne_of_gt hdigits)
  have hdvd := excess_mul_pow_le digits (2 ^ digits - 1) s hdigits (by omega) (by omega)
  rw [← hdiff] at hdvd
  refine Nat.lt_of_le_of_lt (roundRatio_le hdigits Nat.one_pos hdvd (by omega)) ?_
  exact Nat.sub_lt (Nat.two_pow_pos _) hpos

/-- Rounding brings a power of two back that loses a bit above the place. -/
theorem le_roundRatio_two_pow_sub {s e : Nat} (h : s < e) :
    2 ^ (digits + e) ≤ roundRatio digits (2 ^ (digits + e) - 2 ^ s) 1 := by
  have hhalf : 2 * 2 ^ s ≤ 2 ^ e := by
    rw [← Nat.pow_succ']
    exact Nat.pow_le_pow_right (by decide) h
  have hlow : 2 ^ e ≤ 2 ^ (digits - 1 + e) := Nat.pow_le_pow_right (by decide) (by omega)
  have hdouble : 2 ^ (digits + e) = 2 * 2 ^ (digits - 1 + e) := by
    rw [← Nat.pow_succ']
    congr 1
    omega
  have hpos := Nat.two_pow_pos s
  have hdiff : excess digits (2 ^ (digits + e) - 2 ^ s) = e := by
    apply excess_eq hdigits <;> omega
  have heven : 2 ^ digits % 2 = 0 :=
    Nat.mod_eq_zero_of_dvd (Nat.pow_dvd_pow 2 hdigits)
  rw [roundRatio_one, hdiff, Nat.pow_add]
  apply Nat.mul_le_mul_right
  apply (le_roundHalfEven_iff _ (Nat.two_pow_pos _) _).mpr
  rw [← Nat.pow_add]
  omega

theorem lt_excess {m s : Nat} (hlong : 2 ^ (digits + s) ≤ m) : s < excess digits m := by
  apply le_excess hdigits
  have hplace : digits - 1 + (s + 1) = digits + s := by omega
  rw [hplace]
  exact hlong

section

variable {m s : Nat} (h : 2 ^ excess digits m ∣ m) (hlong : 2 ^ (digits + s) < m)
  (hclear : 2 ^ (s + 2) ∣ m)

include h hlong hclear

/-- The power of two is at most half of what the number loses, and if it is half of it
the number is even in its lowest place. -/
theorem exists_even_of_half : ∃ k, m = k * 2 ^ excess digits m ∧
    (2 * 2 ^ s < 2 ^ excess digits m ∨ 2 * 2 ^ s = 2 ^ excess digits m ∧ k % 2 = 0) := by
  have hpow : 2 * 2 ^ s = 2 ^ (s + 1) := Nat.pow_succ'.symm
  rw [hpow]
  refine ⟨m / 2 ^ excess digits m, (Nat.div_mul_cancel h).symm, ?_⟩
  rcases Nat.eq_or_lt_of_le (lt_excess hdigits (Nat.le_of_lt hlong)) with heq | hlt
  · rw [← heq]
    refine .inr ⟨rfl, ?_⟩
    obtain ⟨k, hk⟩ := hclear
    rw [hk, Nat.pow_succ, Nat.mul_assoc, Nat.mul_div_cancel_left _ (Nat.two_pow_pos _)]
    exact Nat.mul_mod_right 2 k
  · exact .inl (Nat.pow_lt_pow_right (by decide) hlt)

/-- A power of two more is lost. -/
theorem roundRatio_add_le : roundRatio digits (m + 2 ^ s) 1 ≤ m := by
  obtain ⟨k, hk, hhalf⟩ := exists_even_of_half hdigits h hlong hclear
  obtain ⟨hbound, _⟩ := add_pow_excess_dvd hdigits h
  have hlost := lt_excess hdigits (Nat.le_of_lt hlong)
  have hlow := pow_excess_le hdigits (Nat.zero_lt_of_lt hlost)
  have hpos := Nat.two_pow_pos s
  have hsum : excess digits (m + 2 ^ s) = excess digits m := by
    apply excess_eq hdigits <;> omega
  rw [roundRatio_one, hsum]
  refine Nat.le_trans (Nat.mul_le_mul_right _ ?_) (Nat.le_of_eq hk.symm)
  apply (roundHalfEven_le_iff _ (Nat.two_pow_pos _) _).mpr
  omega

/-- A power of two less is lost. -/
theorem le_roundRatio_sub : m ≤ roundRatio digits (m - 2 ^ s) 1 := by
  obtain ⟨k, hk, hhalf⟩ := exists_even_of_half hdigits h hlong hclear
  obtain ⟨hbound, _⟩ := add_pow_excess_dvd hdigits h
  have hlost := lt_excess hdigits (Nat.le_of_lt hlong)
  have hlow := pow_excess_le hdigits (Nat.zero_lt_of_lt hlost)
  have hpos := Nat.two_pow_pos s
  rcases Nat.lt_or_ge (m - 2 ^ s) (2 ^ (digits - 1 + excess digits m)) with hshort | hsame
  · -- a power of two, and the numbers below it lose one bit less
    have hpower : m = 2 ^ (digits - 1 + excess digits m) := by
      have hdvd := Nat.dvd_sub h
        (Nat.pow_dvd_pow 2 (Nat.le_add_left (excess digits m) (digits - 1)))
      have hzero := Nat.eq_zero_of_dvd_of_lt hdvd (by omega)
      omega
    obtain ⟨e, he⟩ : ∃ e, digits - 1 + excess digits m = digits + e :=
      ⟨excess digits m - 1, by omega⟩
    rw [he] at hpower
    rw [hpower] at hlong ⊢
    have hplace := (Nat.pow_lt_pow_iff_right (by decide)).mp hlong
    exact le_roundRatio_two_pow_sub hdigits (by omega)
  · have hdiff : excess digits (m - 2 ^ s) = excess digits m := by
      apply excess_eq hdigits <;> omega
    rw [roundRatio_one, hdiff]
    refine Nat.le_trans (Nat.le_of_eq hk) (Nat.mul_le_mul_right _ ?_)
    apply (le_roundHalfEven_iff _ (Nat.two_pow_pos _) _).mpr
    omega

end

/-- A number that keeps a power of two is not much above the place where it would be lost. -/
theorem lt_two_pow_of_keeps {m s : Nat} (h : 2 ^ excess digits m ∣ m)
    (hkeeps : m ≤ 2 ^ (digits + s) ∨ ¬2 ^ (s + 2) ∣ m) : m < 2 ^ (digits + s + 1) := by
  rcases hkeeps with hle | hnot
  · exact Nat.lt_of_le_of_lt hle (Nat.pow_lt_pow_right (by decide) (by omega))
  · apply Nat.lt_of_not_le
    intro hlong
    have hlost : s + 1 < excess digits m := lt_excess hdigits hlong
    exact hnot (Nat.dvd_trans (Nat.pow_dvd_pow 2 hlost) h)

/-- The numbers that a power of two more and less make differ from each other. -/
theorem roundRatio_sub_lt_add_iff {m s : Nat} (h : 2 ^ excess digits m ∣ m) :
    roundRatio digits (m - 2 ^ s) 1 < roundRatio digits (m + 2 ^ s) 1
      ↔ m ≤ 2 ^ (digits + s) ∨ ¬2 ^ (s + 2) ∣ m := by
  have hself : roundRatio digits m 1 = m := by
    have hmul := roundRatio_mul Nat.one_pos h
    rwa [Nat.mul_one] at hmul
  have hbelow : roundRatio digits (m - 2 ^ s) 1 ≤ m :=
    Nat.le_trans (roundRatio_mono hdigits Nat.one_pos (Nat.sub_le m _)) (Nat.le_of_eq hself)
  have habove : m ≤ roundRatio digits (m + 2 ^ s) 1 :=
    Nat.le_trans (Nat.le_of_eq hself.symm)
      (roundRatio_mono hdigits Nat.one_pos (Nat.le_add_right m _))
  rcases Nat.lt_trichotomy m (2 ^ (digits + s)) with hlt | heq | hgt
  · have hadd := lt_roundRatio_add hdigits h (.inl hlt)
    exact ⟨fun _ => .inl (Nat.le_of_lt hlt), fun _ => Nat.lt_of_le_of_lt hbelow hadd⟩
  · have hsub := roundRatio_two_pow_sub_lt hdigits s
    rw [← heq] at hsub
    exact ⟨fun _ => .inl (Nat.le_of_eq heq), fun _ => Nat.lt_of_lt_of_le hsub habove⟩
  · by_cases hclear : 2 ^ (s + 2) ∣ m
    · have hadd := roundRatio_add_le hdigits h hgt hclear
      have hsub := le_roundRatio_sub hdigits h hgt hclear
      exact ⟨fun hlt => by omega, fun hkeeps => by omega⟩
    · have hadd := lt_roundRatio_add hdigits h (.inr hclear)
      exact ⟨fun _ => .inr hclear, fun _ => Nat.lt_of_le_of_lt hbelow hadd⟩

end

end BenchCharts.Binary
