import BenchCharts.Binary.Root
import BenchCharts.Proofs.Binary.Error

/-!
# Bounds of a hypotenuse

What is computed from values up to a power of two is up to a power of two itself, whatever is
rounded on the way: this holds of conversions, squares, sums and square roots
(`exists_standsAt_sqrt`).  So the hypotenuse of a triangle whose legs are at most a power of two
is at most the next power of two (`exists_standsAt_hypotenuse`).
-/

namespace BenchCharts

open Binary

theorem isqrt_mul_self_le (n : Nat) : isqrt n * isqrt n ≤ n := by
  induction n using isqrt.induct with
  | case1 => simp [isqrt]
  | case2 n hn root hle ih =>
    rw [isqrt, if_neg hn]
    simp only [root] at hle
    simp only [if_pos hle]
    exact hle
  | case3 n hn root hnot ih =>
    rw [isqrt, if_neg hn]
    simp only [root] at hnot
    simp only [if_neg hnot]
    have hsquare : 2 * isqrt (n / 4) * (2 * isqrt (n / 4))
        = 4 * (isqrt (n / 4) * isqrt (n / 4)) := by
      rw [Nat.mul_mul_mul_comm]
    omega

namespace Binary

/-- A root on a grid is not above a power of two whose square is not below the number. -/
theorem stickyRoot_le {n shift e : Nat} (h : n ≤ 4 ^ e) (hshift : shift ≤ e) :
    stickyRoot n shift ≤ 2 ^ e * 2 := by
  have hpow : 2 ^ e = 2 ^ (e - shift) * 2 ^ shift := by
    rw [← Nat.pow_add, Nat.sub_add_cancel hshift]
  have hfour : 2 ^ (e - shift) * 2 ^ (e - shift) * 4 ^ shift = 4 ^ e := by
    rw [← Nat.mul_pow, ← Nat.pow_add, Nat.sub_add_cancel hshift]
  have hroot := isqrt_mul_self_le (n / 4 ^ shift)
  have hbelow : isqrt (n / 4 ^ shift) * isqrt (n / 4 ^ shift) * 4 ^ shift ≤ n :=
    (Nat.le_div_iff_mul_le (Nat.pow_pos (by decide))).mp hroot
  have hle : isqrt (n / 4 ^ shift) ≤ 2 ^ (e - shift) := by
    apply Nat.mul_self_le_mul_self_iff.mp
    refine Nat.le_trans hroot (Nat.div_le_of_le_mul ?_)
    rw [Nat.mul_comm, hfour]
    exact h
  rw [show 2 ^ e * 2 = 2 ^ (e - shift) * 2 * 2 ^ shift by rw [hpow, Nat.mul_right_comm]]
  unfold stickyRoot
  dsimp only
  apply Nat.mul_le_mul_right
  rcases Nat.lt_or_eq_of_le hle with hlt | heq
  · split <;> omega
  · -- the root of the power itself leaves no rest
    rw [heq, hfour] at hbelow
    rw [heq, hfour, if_pos (Nat.le_antisymm hbelow h)]
    omega

variable {f : Format} {x y : Binary f} {a b : Int} {e i : Nat}

theorem exists_standsAt_of_rank_nearestUnits {num den : Nat} (hden : 0 < den)
    (hx : x.rank = some (f.nearest (num : Int) den)) (h : num ≤ 2 ^ e * den) (he : e < f.limit) :
    ∃ n : Nat, x.StandsAt n ∧ n ≤ 2 ^ e := by
  rw [Format.nearest_natCast] at hx
  have hle := Format.nearestUnits_le_two_pow_of_le (f := f) hden h
  refine ⟨_, standsAt_of_rank hx ?_, hle⟩
  exact Nat.lt_of_le_of_lt hle (Nat.pow_lt_pow_right (by decide) he)

theorem exists_standsAt_convert {g : Format} (hx : x.StandsAt a) (h : a.natAbs ≤ 2 ^ e)
    (hscale : e + g.scale = i + f.scale) (he : i < g.limit) :
    ∃ b, (x.convert : Binary g).StandsAt b ∧ b.natAbs ≤ 2 ^ i ∧ (0 ≤ a → 0 ≤ b) := by
  cases x with
  | nan | infinite => cases hx.isFinite
  | finite negative m fits =>
    have hrank : signed negative m = a := Option.some.inj hx.rank_eq
    rw [← hrank, natAbs_signed] at h
    have hunits : m * g.one ≤ 2 ^ i * f.one := by
      rw [Format.one, Format.one, ← Nat.pow_add, ← hscale, Nat.pow_add]
      exact Nat.mul_le_mul_right _ h
    have hle := Format.nearestUnits_le_two_pow_of_le (f := g) f.one_pos hunits
    have hconvert := rank_ofUnits (f := g) negative (m * g.one) f.one
    rw [← signed_nearestUnits] at hconvert
    refine ⟨_, standsAt_of_rank hconvert ?_, ?_, ?_⟩
    · rw [natAbs_signed]
      exact Nat.lt_of_le_of_lt hle (Nat.pow_lt_pow_right (by decide) he)
    · rw [natAbs_signed]
      exact hle
    · intro hpos
      cases negative with
      | false => exact Int.natCast_nonneg _
      | true =>
        rw [signed_true] at hrank
        have hzero : m = 0 := by omega
        rw [hzero, Nat.zero_mul, Format.nearestUnits_zero]
        exact Int.le_refl 0

theorem exists_standsAt_mul_self (hx : x.StandsAt a) (h : a.natAbs ≤ 2 ^ e)
    (hscale : e + e = i + f.scale) (he : i < f.limit) :
    ∃ n : Nat, (x * x).StandsAt n ∧ n ≤ 2 ^ i := by
  have hrank := rank_mul hx hx
  rw [← Int.natAbs_mul_self] at hrank
  refine exists_standsAt_of_rank_nearestUnits f.one_pos hrank ?_ he
  rw [Format.one, ← Nat.pow_add, ← hscale, Nat.pow_add]
  exact Nat.mul_le_mul h h

theorem exists_standsAt_add_nat {m n : Nat} (hx : x.StandsAt m) (hy : y.StandsAt n)
    (h : m + n ≤ 2 ^ e) (he : e < f.limit) : ∃ k : Nat, (x + y).StandsAt k ∧ k ≤ 2 ^ e := by
  have hrank := rank_add hx hy
  rw [← Int.natCast_add] at hrank
  exact exists_standsAt_of_rank_nearestUnits Nat.one_pos hrank (by rwa [Nat.mul_one]) he

theorem exists_standsAt_sqrt {n : Nat} (hx : x.StandsAt n) (h : n * f.one ≤ 4 ^ e)
    (he : e < f.limit) : ∃ r : Nat, x.sqrt.StandsAt r ∧ r ≤ 2 ^ e := by
  rcases Nat.eq_zero_or_pos n with rfl | hpos
  · cases x with
    | nan | infinite => cases hx.isFinite
    | finite negative m fits =>
      have hzero : m = 0 := by
        have hsigned : signed negative m = 0 := Option.some.inj hx.rank_eq
        rw [← natAbs_signed negative m, hsigned, Int.natAbs_zero]
      refine ⟨0, ?_, Nat.zero_le _⟩
      rw [sqrt, if_pos hzero]
      exact hx
  · obtain ⟨_, rfl⟩ := hx.eq_finite hpos
    have hshift : (n * f.one).log2 / 2 - (f.digits + 2) ≤ e := by
      have hlog : (n * f.one).log2 < 2 * e + 1 := by
        rw [Nat.log2_lt (Nat.ne_of_gt (Nat.mul_pos hpos f.one_pos)), Nat.pow_succ, Nat.pow_mul]
        have hfour := Nat.pow_pos (n := e) (show 0 < 4 by decide)
        show _ < 4 ^ e * 2
        omega
      omega
    rw [sqrt, if_neg (Nat.ne_of_gt hpos), if_neg Bool.false_ne_true]
    exact exists_standsAt_of_rank_nearestUnits (by decide) (rank_ofUnits false _ 2)
      (stickyRoot_le h hshift) he

/-- The hypotenuse is at most twice the power of two that no leg exceeds. -/
theorem exists_standsAt_hypotenuse {x y : Single} (hx : x.StandsAt a) (hy : y.StandsAt b)
    (ha : a.natAbs ≤ 2 ^ e) (hb : b.natAbs ≤ 2 ^ e) (he : e < 276) :
    ∃ d : Nat, (hypotenuse x y).StandsAt d ∧ d ≤ 2 ^ (e + 1) := by
  have hwide : ∀ {z : Single} {c : Int}, z.StandsAt c → c.natAbs ≤ 2 ^ e →
      ∃ n : Nat, ((z.convert : Double) * z.convert).StandsAt n ∧ n ≤ 2 ^ (2 * e + 776) := by
    intro z c hz hc
    obtain ⟨c', hz', hc', -⟩ := exists_standsAt_convert (g := .binary64) (i := e + 925) hz hc
      (by simp only [Format.binary32, Format.binary64])
      (by simp only [Format.binary64]; omega)
    exact exists_standsAt_mul_self hz' hc' (by simp only [Format.binary64]; omega)
      (by simp only [Format.binary64]; omega)
  obtain ⟨m, hm, hmle⟩ := hwide hx ha
  obtain ⟨n, hn, hnle⟩ := hwide hy hb
  obtain ⟨k, hk, hkle⟩ := exists_standsAt_add_nat (e := 2 * e + 777) hm hn
    (by rw [show 2 * e + 777 = 2 * e + 776 + 1 by omega, Nat.pow_succ]; omega)
    (by simp only [Format.binary64]; omega)
  have hsquare : k * Format.one .binary64 ≤ 4 ^ (e + 926) := by
    refine Nat.le_trans (Nat.mul_le_mul_right _ hkle) ?_
    rw [Format.one, ← Nat.pow_add, show (4 : Nat) = 2 ^ 2 by decide, ← Nat.pow_mul]
    exact Nat.pow_le_pow_right (by decide) (by simp only [Format.binary64]; omega)
  obtain ⟨r, hr, hrle⟩ := exists_standsAt_sqrt hk hsquare (by simp only [Format.binary64]; omega)
  obtain ⟨d, hd, hdle, hpos⟩ := exists_standsAt_convert (g := .binary32) (i := e + 1) hr
    (by rwa [Int.natAbs_natCast]) (by simp only [Format.binary32, Format.binary64])
    (by simp only [Format.binary32]; omega)
  obtain ⟨d, rfl⟩ := Int.eq_ofNat_of_zero_le (hpos (Int.natCast_nonneg r))
  exact ⟨d, hd, hdle⟩

end Binary

end BenchCharts
