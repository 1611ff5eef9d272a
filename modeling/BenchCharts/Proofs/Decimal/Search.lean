import BenchCharts.Decimal.Shortest
import BenchCharts.Proofs.Decimal.Value

/-!
# The search for the shortest decimal

The numbers that are read as a magnitude are an interval around it.  If a number with `n`
digits is one of them, so is one of the two neighbours of the magnitude on the grid of `n`
digits (`exists_neighbour`): the number lies on the grid, or else below the decade of the
magnitude, and then the decade itself begins between the two.  Hence the first grid with
such a neighbour has as few digits as there can be (`shortestDecimal_hasDigits`).

The steps of the grid of `maxDigits` digits are so narrow that one of the neighbours is
always read as the magnitude (`exists_neighbour_maxDigits`), so the search succeeds.
-/

namespace BenchCharts

open Binary

/-- A number with at most `n` digits, wherever its point is. -/
def HasDigits (n : Nat) (q : ℚ) : Prop :=
  ∃ (k : Nat) (e : Int), k < 10 ^ n ∧ q = k * 10 ^ e

theorem HasDigits.mono {m n : Nat} {q : ℚ} (h : HasDigits m q) (hle : m ≤ n) : HasDigits n q := by
  obtain ⟨k, e, hk, hq⟩ := h
  exact ⟨k, e, Nat.lt_of_lt_of_le hk (Nat.pow_le_pow_right (by decide) hle), hq⟩

theorem ten_zpow_pos (e : Int) : (0 : ℚ) < 10 ^ e :=
  zpow_pos (by norm_num) e

theorem ten_zpow_add (n : Nat) (e : Int) : ((10 ^ n : Nat) : ℚ) * 10 ^ e = 10 ^ (n + e) := by
  push_cast
  rw [← zpow_natCast, ← zpow_add₀ (by norm_num)]

theorem ten_zpow_neg (n : Nat) : (10 : ℚ) ^ (-n : Int) = ((10 ^ n : Nat) : ℚ)⁻¹ := by
  push_cast
  rw [zpow_neg, zpow_natCast]

/-- Of two ways to write a number, the one with the lower exponent has the zeros. -/
theorem exists_eq_mul_ten_pow {a b : Nat} {d e : Int} (h : (a : ℚ) * 10 ^ d = b * 10 ^ e)
    (hle : e ≤ d) : ∃ n : Nat, b = a * 10 ^ n := by
  obtain ⟨n, hn⟩ := Int.eq_ofNat_of_zero_le (show 0 ≤ d - e by omega)
  refine ⟨n, ?_⟩
  have hd : d = n + e := by omega
  rw [hd, ← ten_zpow_add, ← mul_assoc, ← Nat.cast_mul] at h
  exact (Nat.cast_injective (mul_right_cancel₀ (ten_zpow_pos e).ne' h)).symm

/-! ## The decade of a magnitude -/

theorem lt_ten_pow_length_toDigits (n : Nat) : n < 10 ^ (Nat.toDigits 10 n).length :=
  (Nat.length_toDigits_le_iff (by decide) Nat.length_toDigits_pos).mp (Nat.le_refl _)

theorem ten_pow_le_of_length_toDigits {n : Nat} (h : 0 < n) :
    10 ^ ((Nat.toDigits 10 n).length - 1) ≤ n := by
  rcases Nat.eq_zero_or_pos ((Nat.toDigits 10 n).length - 1) with hone | hmore
  · rw [hone]
    exact h
  · apply Nat.le_of_not_lt
    rw [← Nat.length_toDigits_le_iff (by decide) hmore]
    omega

namespace Binary

variable {f : Format} {m : Nat}

/-- A magnitude lies in the decade below its exponent. -/
theorem decimalExponent_spec (hpos : 0 < m) :
    (10 : ℚ) ^ (decimalExponent f m - 1) ≤ m / f.one ∧
      m / f.one < (10 : ℚ) ^ decimalExponent f m := by
  have hone : (0 : ℚ) < f.one := Nat.cast_pos.mpr f.one_pos
  rw [le_div_iff₀ hone, div_lt_iff₀ hone, decimalExponent]
  split
  · rename_i hge
    have hquotient : 0 < m / f.one := Nat.div_pos hge f.one_pos
    have hlow := ten_pow_le_of_length_toDigits hquotient
    have hhigh := lt_ten_pow_length_toDigits (m / f.one)
    have hlength := Nat.length_toDigits_pos (b := 10) (n := m / f.one)
    generalize (Nat.toDigits 10 (m / f.one)).length = n at hlow hhigh hlength
    rw [Nat.le_div_iff_mul_le f.one_pos] at hlow
    rw [Nat.div_lt_iff_lt_mul f.one_pos] at hhigh
    have hexponent : (n : Int) - 1 = (n - 1 : Nat) := by omega
    rw [hexponent, zpow_natCast, zpow_natCast]
    exact_mod_cast And.intro hlow hhigh
  · rename_i hlt
    have hunits := f.one_pos
    have hquotient : 0 < (f.one - 1) / m := Nat.div_pos (by omega) hpos
    have hlow := ten_pow_le_of_length_toDigits hquotient
    have hhigh := lt_ten_pow_length_toDigits ((f.one - 1) / m)
    have hlength := Nat.length_toDigits_pos (b := 10) (n := (f.one - 1) / m)
    generalize (Nat.toDigits 10 ((f.one - 1) / m)).length = n at hlow hhigh hlength
    rw [Nat.le_div_iff_mul_le hpos] at hlow
    rw [Nat.div_lt_iff_lt_mul hpos] at hhigh
    have hexponent : (1 : Int) - n = -(n - 1 : Nat) := by omega
    have hbelow : (1 : Int) - n - 1 = -n := by omega
    rw [hbelow, hexponent, ten_zpow_neg, ten_zpow_neg, inv_mul_le_iff₀ (by positivity),
      lt_inv_mul_iff₀ (by positivity)]
    have hbounds : f.one ≤ 10 ^ n * m ∧ 10 ^ (n - 1) * m < f.one := by omega
    exact_mod_cast hbounds

/-! ## Neighbours -/

/-- A number lies between two neighbours on a grid. -/
theorem grid_bounds {num den : Nat} (hden : 0 < den) {q : ℚ} {e : Int}
    (hq : (num / den : ℚ) * 10 ^ e = q) :
    ((num / den : Nat) : ℚ) * 10 ^ e ≤ q ∧ q < ((num / den + 1 : Nat) : ℚ) * 10 ^ e := by
  have hpos : (0 : ℚ) < den := Nat.cast_pos.mpr hden
  have hlt : num < (num / den + 1) * den := (Nat.div_lt_iff_lt_mul hden).mp (Nat.lt_succ_self _)
  have hupper : (num / den : ℚ) < ((num / den + 1 : Nat) : ℚ) := by
    rw [div_lt_iff₀ hpos]
    exact_mod_cast hlt
  have hlower : ((num / den : Nat) : ℚ) ≤ num / den := by
    rw [le_div_iff₀ hpos]
    exact_mod_cast Nat.div_mul_le_self num den
  rw [← hq]
  exact ⟨mul_le_mul_of_nonneg_right hlower (ten_zpow_pos e).le,
    mul_lt_mul_of_pos_right hupper (ten_zpow_pos e)⟩

/-- The two neighbours of a magnitude among the multiples of a power of ten. -/
theorem exists_neighbours (f : Format) (m : Nat) (e : Int) :
    ∃ k : Nat, (∀ x, x ∈ neighbours f m e ↔ x = ⟨k, e⟩ ∨ x = ⟨k + 1, e⟩) ∧
      (k : ℚ) * 10 ^ e ≤ m / f.one ∧ m / f.one < ((k + 1 : Nat) : ℚ) * 10 ^ e := by
  have hmem : ∀ (p : Prop) [Decidable p] (x y z : Scientific),
      (z ∈ if p then [x, y] else [y, x]) ↔ z = x ∨ z = y := by
    intro p _ x y z
    split <;> simp [or_comm]
  have hone : (f.one : ℚ) ≠ 0 := Nat.cast_ne_zero.mpr (Nat.ne_of_gt f.one_pos)
  refine ⟨_, fun x => hmem _ _ _ x, grid_bounds ?_ ?_⟩
  · split
    · exact Nat.mul_pos f.one_pos (Nat.pow_pos (by decide))
    · exact f.one_pos
  · rcases Int.lt_or_le e 0 with hneg | hpos
    · obtain ⟨n, hn⟩ := Int.eq_ofNat_of_zero_le (show 0 ≤ -e by omega)
      have habs : e.natAbs = n := by omega
      have hexponent : e = -n := by omega
      have hpow : ((10 ^ n : Nat) : ℚ) ≠ 0 := by positivity
      rw [if_neg (by omega), if_neg (by omega), habs, hexponent, ten_zpow_neg, Nat.cast_mul,
        mul_div_right_comm, mul_inv_cancel_right₀ hpow]
    · obtain ⟨n, rfl⟩ := Int.eq_ofNat_of_zero_le hpos
      have hpow : ((10 ^ n : Nat) : ℚ) ≠ 0 := by positivity
      rw [if_pos hpos, if_pos hpos, Int.toNat_natCast, zpow_natCast, Nat.cast_mul]
      push_cast at hpow ⊢
      rw [div_mul_eq_mul_div, mul_div_mul_right _ _ hpow]

/-! ## Neighbours that are read as the magnitude -/

theorem readsAs_iff (h : f.Fits m) (x : Scientific) :
    readsAs f m x = true ↔ f.magnitude x.value = m := by
  rw [readsAs]
  split
  · rename_i negative k fits heq
    obtain ⟨_, hk⟩ := x.toBinary_eq_finite_iff.mp heq
    rw [hk, decide_eq_true_eq, eq_comm]
  · rename_i hother
    refine iff_of_false Bool.false_ne_true fun hm => ?_
    exact hother false m h (x.toBinary_eq_finite_iff.mpr ⟨rfl, hm⟩)

section

variable (h : f.Fits m)

include h

/-- A multiple between the magnitude and a number that is read as it has a neighbour on the
same side that is read as it too. -/
theorem exists_neighbour_of_between {q : ℚ} (hq : f.magnitude q = m) {j : Nat} {e : Int}
    (hbetween : q ≤ j * 10 ^ e ∧ (j : ℚ) * 10 ^ e ≤ m / f.one
      ∨ m / f.one < (j : ℚ) * 10 ^ e ∧ j * 10 ^ e ≤ q) :
    ∃ x ∈ neighbours f m e, f.magnitude x.value = m := by
  obtain ⟨k, hmem, hlower, hupper⟩ := exists_neighbours f m e
  have hgrid : ∀ {a b : Nat}, a ≤ b → (a : ℚ) * 10 ^ e ≤ b * 10 ^ e := fun hab =>
    mul_le_mul_of_nonneg_right (Nat.cast_le.mpr hab) (ten_zpow_pos e).le
  have hself := Format.magnitude_div_one h
  rcases hbetween with ⟨hqj, hjm⟩ | ⟨hmj, hjq⟩
  · have hjk : j ≤ k := by
      by_contra hlt
      exact absurd (hupper.trans_le (hgrid (Nat.lt_of_not_le hlt))) (not_lt.mpr hjm)
    refine ⟨⟨k, e⟩, (hmem _).mpr (.inl rfl), ?_⟩
    exact Format.magnitude_eq_of_between hq hself (hqj.trans (hgrid hjk)) hlower
  · have hkj : k + 1 ≤ j := by
      by_contra hlt
      exact absurd (hmj.trans_le (hgrid (Nat.le_of_lt_succ (Nat.lt_of_not_le hlt))))
        (not_lt.mpr hlower)
    refine ⟨⟨k + 1, e⟩, (hmem _).mpr (.inr rfl), ?_⟩
    exact Format.magnitude_eq_of_between hself hq hupper.le ((hgrid hkj).trans hjq)

variable (hpos : 0 < m)

include hpos

/-- On the grid of `n` digits a neighbour is read as the magnitude if any number with `n`
digits is. -/
theorem exists_neighbour {q : ℚ} {n : Nat} (hn : 0 < n) (hdigits : HasDigits n q)
    (hq : f.magnitude q = m) :
    ∃ x ∈ neighbours f m (decimalExponent f m - n), f.magnitude x.value = m := by
  obtain ⟨hlow, _⟩ := decimalExponent_spec (f := f) hpos
  generalize decimalExponent f m = d at hlow ⊢
  rcases le_or_gt ((10 : ℚ) ^ (d - 1)) q with hge | hlt
  · -- the number is not below the decade, so it lies on the grid
    obtain ⟨k, e, hk, rfl⟩ := hdigits
    have he : d - 1 < n + e := by
      have hshort : (k : ℚ) * 10 ^ e < (10 ^ n : Nat) * 10 ^ e :=
        mul_lt_mul_of_pos_right (Nat.cast_lt.mpr hk) (ten_zpow_pos e)
      rw [ten_zpow_add] at hshort
      exact (zpow_lt_zpow_iff_right₀ (by norm_num)).mp (hge.trans_lt hshort)
    obtain ⟨i, hi⟩ := Int.eq_ofNat_of_zero_le (show 0 ≤ e - (d - n) by omega)
    have hgrid : (k : ℚ) * 10 ^ e = (k * 10 ^ i : Nat) * 10 ^ (d - n) := by
      rw [Nat.cast_mul, mul_assoc, ten_zpow_add]
      congr 2
      omega
    rw [hgrid] at hq
    apply exists_neighbour_of_between h hq
    rcases le_or_gt (((k * 10 ^ i : Nat) : ℚ) * 10 ^ (d - n)) (m / f.one) with hle | hgt
    · exact .inl ⟨le_rfl, hle⟩
    · exact .inr ⟨hgt, le_rfl⟩
  · -- the decade begins between the number and the magnitude
    have hdecade : ((10 ^ (n - 1) : Nat) : ℚ) * 10 ^ (d - n) = 10 ^ (d - 1) := by
      rw [ten_zpow_add]
      congr 1
      omega
    apply exists_neighbour_of_between h hq (j := 10 ^ (n - 1))
    rw [hdecade]
    exact .inl ⟨hlt.le, hlow⟩

end

/-! ## Enough digits -/

/-- A bound on the logarithm of two bounds the digits of a power of two. -/
theorem two_pow_lt_ten_pow {a b digits n : Nat} (hlog : 2 ^ a < 10 ^ b)
    (hn : b * digits < a * n) : 2 ^ digits < 10 ^ n := by
  have ha : a ≠ 0 := by
    rintro rfl
    omega
  rw [← Nat.pow_lt_pow_iff_left ha, ← Nat.pow_mul, ← Nat.pow_mul]
  calc 2 ^ (digits * a) = (2 ^ a) ^ digits := by rw [← Nat.pow_mul, Nat.mul_comm]
    _ ≤ (10 ^ b) ^ digits := Nat.pow_le_pow_left (Nat.le_of_lt hlog) digits
    _ = 10 ^ (b * digits) := (Nat.pow_mul 10 b digits).symm
    _ < 10 ^ (n * a) := Nat.pow_lt_pow_right (by decide) (Nat.mul_comm a n ▸ hn)

theorem two_pow_digits_lt (f : Format) : 2 ^ f.digits < 10 ^ (maxDigits f - 1) := by
  have hlog : 2 ^ 100000 < 10 ^ 30103 := by decide +kernel
  apply two_pow_lt_ten_pow hlog
  rw [maxDigits]
  omega

theorem lt_two_pow_digits_mul_step (h : f.Fits m) : m < 2 ^ f.digits * f.step m := by
  have hbound := (add_pow_excess_dvd f.digits_pos h.1).1
  have hpos := Nat.two_pow_pos (excess f.digits m)
  rw [Nat.pow_add] at hbound
  rw [Format.step]
  omega

section

variable (h : f.Fits m) (hpos : 0 < m)

include h hpos

omit h in
/-- The first power of ten of a grid of `n` digits is not above the magnitude. -/
theorem mul_grid_le {n : Nat} (hn : 0 < n) :
    ((10 ^ (n - 1) : Nat) : ℚ) * (10 ^ (decimalExponent f m - n) * f.one) ≤ m := by
  have hone : (0 : ℚ) < f.one := Nat.cast_pos.mpr f.one_pos
  have hexponent : ((n - 1 : Nat) : Int) + (decimalExponent f m - n) = decimalExponent f m - 1 := by
    omega
  rw [← mul_assoc, ten_zpow_add, hexponent, ← le_div_iff₀ hone]
  exact (decimalExponent_spec hpos).1

/-- The grid of `n` digits is narrower than the step of the magnitude, and for a power of
two than half of it. -/
theorem grid_lt_step {n : Nat} (hn : 2 ^ f.digits < 10 ^ (n - 1)) :
    (10 : ℚ) ^ (decimalExponent f m - n) * f.one < f.step m ∧
      (m = 2 ^ (f.digits - 1 + excess f.digits m) →
        2 * ((10 : ℚ) ^ (decimalExponent f m - n) * f.one) < f.step m) := by
  have hpositive : 0 < n := by
    rcases Nat.eq_zero_or_pos n with rfl | hpositive
    · exact absurd (Nat.one_le_two_pow (n := f.digits)) (Nat.not_le.mpr hn)
    · exact hpositive
  have hgrid := mul_grid_le (f := f) hpos hpositive
  generalize (10 : ℚ) ^ (decimalExponent f m - n) * f.one = width at hgrid ⊢
  have hten : (0 : ℚ) < (10 ^ (n - 1) : Nat) := by positivity
  have hstep : (0 : ℚ) < f.step m := Nat.cast_pos.mpr (Nat.two_pow_pos _)
  have hscaled : ((2 ^ f.digits * f.step m : Nat) : ℚ) < (10 ^ (n - 1) : Nat) * f.step m := by
    rw [Nat.cast_mul]
    exact mul_lt_mul_of_pos_right (Nat.cast_lt.mpr hn) hstep
  refine ⟨lt_of_mul_lt_mul_left ?_ hten.le, fun hm => lt_of_mul_lt_mul_left ?_ hten.le⟩
  · exact (hgrid.trans_lt (Nat.cast_lt.mpr (lt_two_pow_digits_mul_step h))).trans hscaled
  · have hdouble : 2 * m = 2 ^ f.digits * f.step m := by
      have hdigits : f.digits = f.digits - 1 + 1 := by
        have := f.digits_pos
        omega
      rw [hdigits, Nat.pow_succ', Nat.mul_assoc, Format.step, ← Nat.pow_add, ← hm]
    rw [← hdouble, Nat.cast_mul, Nat.cast_two] at hscaled
    linarith

/-- The steps of a grid of many digits are narrower than what is read as the magnitude. -/
theorem exists_neighbour_of_two_pow_lt {n : Nat} (hn : 2 ^ f.digits < 10 ^ (n - 1)) :
    ∃ x ∈ neighbours f m (decimalExponent f m - n), f.magnitude x.value = m := by
  obtain ⟨hstep, hhalf⟩ := grid_lt_step h hpos hn
  obtain ⟨k, hmem, hlower, hupper⟩ := exists_neighbours f m (decimalExponent f m - n)
  generalize decimalExponent f m - n = e at *
  have hgrid := (ten_zpow_pos e).le
  have hself := Format.magnitude_div_one h
  by_contra hnone
  have hbelow : f.magnitude (k * 10 ^ e) < m := by
    refine lt_of_le_of_ne (hself ▸ Format.magnitude_mono hlower) fun heq => hnone ?_
    exact ⟨⟨k, e⟩, (hmem _).mpr (.inl rfl), heq⟩
  have habove : m < f.magnitude ((k + 1 : Nat) * 10 ^ e) := by
    refine lt_of_le_of_ne (hself ▸ Format.magnitude_mono hupper.le) fun heq => hnone ?_
    exact ⟨⟨k + 1, e⟩, (hmem _).mpr (.inr rfl), heq.symm⟩
  have hfar : (m : ℚ) + f.step m / 2 ≤ (k + 1 : Nat) * 10 ^ e * f.one :=
    not_lt.mp fun hnear => absurd
      (Format.magnitude_le_of_near (mul_nonneg (Nat.cast_nonneg _) hgrid) h hnear)
      (not_le.mpr habove)
  push_cast at hfar
  by_cases hm : m = 2 ^ (f.digits - 1 + excess f.digits m)
  · have hfar' : (k : ℚ) * 10 ^ e * f.one ≤ m - f.step m / 4 :=
      not_lt.mp fun hnear => absurd
        (Format.le_magnitude_of_very_near (mul_nonneg (Nat.cast_nonneg _) hgrid) h hnear)
        (not_le.mpr hbelow)
    have hnarrow := hhalf hm
    linarith
  · have hfar' : (k : ℚ) * 10 ^ e * f.one ≤ m - f.step m / 2 :=
      not_lt.mp fun hnear => absurd
        (Format.le_magnitude_of_near (mul_nonneg (Nat.cast_nonneg _) hgrid) h hm hnear)
        (not_le.mpr hbelow)
    linarith

end

/-! ## The search -/

/-- Going up from zero finds the first success. -/
theorem exists_findSome?_range {α : Type} {g : Nat → Option α} {n k : Nat} (hk : k < n)
    (hsome : g k ≠ none) : ∃ j x, (List.range n).findSome? g = some x ∧ j < n ∧ g j = some x ∧
      ∀ i < j, g i = none := by
  cases hfound : (List.range n).findSome? g with
  | none => exact absurd (List.findSome?_eq_none_iff.mp hfound k (List.mem_range.mpr hk)) hsome
  | some x =>
    obtain ⟨before, j, after, hrange, hj, hbefore⟩ := List.findSome?_eq_some_iff.mp hfound
    have hlength : before.length < n := by
      have htotal := congrArg List.length hrange
      rw [List.length_range, List.length_append, List.length_cons] at htotal
      omega
    have hplace : j = before.length := by
      have hget : (List.range n)[before.length]? = some j := by simp [hrange]
      rw [List.getElem?_range hlength] at hget
      exact (Option.some.inj hget).symm
    refine ⟨j, x, rfl, hplace ▸ hlength, hj, fun i hi => hbefore i ?_⟩
    have hget : (List.range n)[i]? = some i := List.getElem?_range (by omega)
    rw [hrange, List.getElem?_append_left (by omega)] at hget
    exact List.mem_of_getElem? hget

section

variable (h : f.Fits m) (hpos : 0 < m)

include h

theorem find?_readsAs_eq_none_iff {xs : List Scientific} :
    xs.find? (readsAs f m) = none ↔ ∀ x ∈ xs, f.magnitude x.value ≠ m := by
  rw [List.find?_eq_none]
  exact forall₂_congr fun x _ => not_congr (readsAs_iff h x)

include hpos

/-- The shortest decimal is a neighbour that is read as the magnitude, on the first grid that
has one. -/
theorem shortestDecimal_spec : ∃ j < maxDigits f,
    shortestDecimal f m ∈ neighbours f m (decimalExponent f m - (j + 1 : Nat)) ∧
      f.magnitude (shortestDecimal f m).value = m ∧
      ∀ i < j, ∀ x ∈ neighbours f m (decimalExponent f m - (i + 1 : Nat)),
        f.magnitude x.value ≠ m := by
  have hdigits : maxDigits f = maxDigits f - 1 + 1 := by
    rw [maxDigits]
    omega
  have hlast := exists_neighbour_of_two_pow_lt h hpos (two_pow_digits_lt f)
  rw [hdigits] at hlast
  obtain ⟨x, hx, hread⟩ := hlast
  obtain ⟨j, y, hfound, hj, hy, hfirst⟩ := exists_findSome?_range
    (g := fun n => (neighbours f m (decimalExponent f m - (n + 1 : Nat))).find? (readsAs f m))
    (show maxDigits f - 1 < maxDigits f by omega)
    (fun hnone => (find?_readsAs_eq_none_iff h).mp hnone x hx hread)
  have hshortest : shortestDecimal f m = y := by
    rw [shortestDecimal, hfound, Option.getD_some]
  rw [hshortest]
  refine ⟨j, hj, List.mem_of_find?_eq_some hy, ?_, fun i hi => ?_⟩
  · exact (readsAs_iff h y).mp (List.find?_some hy)
  · exact (find?_readsAs_eq_none_iff h).mp (hfirst i hi)

omit h in
/-- A neighbour on the grid of `n` digits has at most `n` digits. -/
theorem hasDigits_of_mem_neighbours {n : Nat} {x : Scientific} (hn : 0 < n)
    (hx : x ∈ neighbours f m (decimalExponent f m - n)) : HasDigits n x.value := by
  obtain ⟨_, hhigh⟩ := decimalExponent_spec (f := f) hpos
  obtain ⟨k, hmem, hlower, _⟩ := exists_neighbours f m (decimalExponent f m - n)
  generalize decimalExponent f m = d at *
  have hk : k < 10 ^ n := by
    have hgrid : (k : ℚ) * 10 ^ (d - n) < (10 ^ n : Nat) * 10 ^ (d - n) := by
      rw [ten_zpow_add, add_sub_cancel]
      exact hlower.trans_lt hhigh
    exact_mod_cast lt_of_mul_lt_mul_right hgrid (ten_zpow_pos _).le
  rcases (hmem x).mp hx with rfl | rfl
  · exact ⟨k, d - n, hk, rfl⟩
  · rcases Nat.eq_or_lt_of_le (Nat.succ_le_of_lt hk) with hdecade | hshort
    · refine ⟨1, d, Nat.one_lt_pow (by omega) (by decide), ?_⟩
      have hvalue : (⟨k + 1, d - n⟩ : Scientific).value = (10 ^ n : Nat) * 10 ^ (d - n) := by
        rw [Scientific.value, ← hdecade]
      rw [hvalue, ten_zpow_add, add_sub_cancel, Nat.cast_one, one_mul]
    · exact ⟨k + 1, d - n, hshort, rfl⟩

/-- Every number that is read as the magnitude has as many digits as the shortest decimal. -/
theorem shortestDecimal_hasDigits {q : ℚ} {n : Nat} (hdigits : HasDigits n q)
    (hq : f.magnitude q = m) : HasDigits n (shortestDecimal f m).value := by
  obtain ⟨j, _, hmem, _, hfirst⟩ := shortestDecimal_spec h hpos
  have hn : 0 < n := by
    rcases Nat.eq_zero_or_pos n with rfl | hn
    · obtain ⟨k, e, hk, rfl⟩ := hdigits
      rw [Nat.lt_one_iff.mp hk, Nat.cast_zero, zero_mul, Format.magnitude_zero] at hq
      exact absurd hq (Nat.ne_of_lt hpos)
    · exact hn
  rcases Nat.lt_or_ge j n with hlt | hge
  · exact (hasDigits_of_mem_neighbours hpos (Nat.succ_pos j) hmem).mono hlt
  · obtain ⟨x, hx, hread⟩ := exists_neighbour h hpos hn hdigits hq
    have hlast : n - 1 + 1 = n := Nat.sub_add_cancel hn
    exact absurd hread (hfirst (n - 1) (by omega) x (by rwa [hlast]))

end

end Binary

end BenchCharts
