import Mathlib.Algebra.Group.Defs
import BenchCharts.Chart.Latency
import BenchCharts.Proofs.Binary.Integer
import BenchCharts.Proofs.Decimal.Integer

/-!
# The texts at bars

The text at a bar is the numeral of its height without the fractional part, as long as that
is an integer of 64 bits, and of the first or the last such integer beyond
(`barLabel_truncates`).
-/

namespace BenchCharts.LatencyChart

open Binary Format

/-- The integer towards zero from `a` units, brought into the range of 64 bits. -/
def truncated (a : Int) : Int :=
  max (-2 ^ 63) (min (2 ^ 63 - 1) (a.tdiv binary64.one))

theorem toInt64_trunc_of_rank {v : Double} {a : Int} (h : v.rank = some a) :
    v.trunc.toInt64 = truncated a :=
  (toInt_trunc _ _ v).trans
    (toInt_of_rank h (by decide) (by decide) (by decide +kernel) (by decide +kernel))

theorem isIntegerText_barLabel_iff {v : Double} {a n : Int} (h : v.rank = some a) :
    IsIntegerText (barLabel v).toList n ↔ n = truncated a := by
  rw [← toInt64_trunc_of_rank h]
  exact isIntegerText_toString_iff

/-- Heights keep their order when they are truncated. -/
theorem truncated_mono {a b : Int} (h : a ≤ b) : truncated a ≤ truncated b := by
  have htdiv := Int.tdiv_le_tdiv (Int.natCast_pos.mpr binary64.one_pos) h
  unfold truncated
  omega

/-- An integer of 64 bits is less than one away on the side of zero. -/
theorem truncated_spec {a : Int} (h : a.natAbs < 2 ^ 63 * binary64.one) :
    (truncated a).natAbs * binary64.one ≤ a.natAbs ∧
      a.natAbs < ((truncated a).natAbs + 1) * binary64.one ∧
      (0 < truncated a → 0 < a) ∧ (truncated a < 0 → a < 0) := by
  have hone := binary64.one_pos
  have hquotient : (a.tdiv binary64.one).natAbs = a.natAbs / binary64.one := by
    rw [Int.natAbs_tdiv, Int.natAbs_natCast]
    rfl
  have hbound : a.natAbs / binary64.one < 2 ^ 63 := (Nat.div_lt_iff_lt_mul hone).mpr h
  have hinside : truncated a = a.tdiv binary64.one := by
    unfold truncated
    omega
  have hnonneg : 0 ≤ a → 0 ≤ a.tdiv binary64.one := fun ha =>
    Int.tdiv_nonneg ha (Int.natCast_nonneg _)
  have hnonpos : a ≤ 0 → a.tdiv binary64.one ≤ 0 := fun ha => by
    have htdiv := Int.tdiv_le_tdiv (Int.natCast_pos.mpr hone) ha
    rwa [Int.zero_tdiv] at htdiv
  rw [hinside, hquotient]
  exact ⟨Nat.div_mul_le_self _ _, (Nat.div_lt_iff_lt_mul hone).mp (Nat.lt_succ_self _),
    by omega, by omega⟩

/-- The text at a bar is the canonical numeral of its height, truncated towards zero and
brought into the range of 64 bits.  If the height is in that range, the numeral is less than
one away from it and on the same side of zero.  A higher bar never has a smaller numeral. -/
theorem barLabel_truncates {v : Double} (h : v.isNaN = false) : ∃ a t : Int,
    v.rank = some a ∧ t = max (-2 ^ 63) (min (2 ^ 63 - 1) (a.tdiv binary64.one)) ∧
    (∀ n, IsIntegerText (barLabel v).toList n ↔ n = t) ∧
    (a.natAbs < 2 ^ 63 * binary64.one →
      t.natAbs * binary64.one ≤ a.natAbs ∧ a.natAbs < (t.natAbs + 1) * binary64.one ∧
        (0 < t → 0 < a) ∧ (t < 0 → a < 0)) ∧
    (∀ w : Double, v ≤ w → ∃ u, IsIntegerText (barLabel w).toList u ∧ t ≤ u) := by
  obtain ⟨a, ha⟩ := isNaN_eq_false_iff.mp h
  refine ⟨a, truncated a, ha, rfl, fun n => isIntegerText_barLabel_iff ha, truncated_spec, ?_⟩
  intro w hle
  obtain ⟨a', b, ha', hb, hab⟩ := le_iff.mp hle
  obtain rfl : a = a' := Option.some.inj (ha.symm.trans ha')
  exact ⟨truncated b, (isIntegerText_barLabel_iff hb).mpr rfl, truncated_mono hab⟩

/-- A value between minus one and zero, and one beyond the range. -/
theorem barLabel_truncates_small : (-0.5 : Double).isNaN = false ∧ barLabel (-0.5) = "0" ∧
    IsIntegerText (barLabel (-0.5)).toList 0 ∧ (-0.5 : Double) ≤ 1e300 ∧
    barLabel 1e300 = "9223372036854775807" ∧
    ∃ u, IsIntegerText (barLabel 1e300).toList u ∧ 0 ≤ u := by
  have hnumber : (-0.5 : Double).isNaN = false := by decide +kernel
  have hle : (-0.5 : Double) ≤ 1e300 := by decide +kernel
  have hrank : (-0.5 : Double).rank = some (-((2 ^ 1073 : Nat) : Int)) := by decide +kernel
  obtain ⟨a, t, ha, ht, htext, _, hmono⟩ := barLabel_truncates hnumber
  obtain rfl : -((2 ^ 1073 : Nat) : Int) = a := Option.some.inj (hrank.symm.trans ha)
  obtain rfl : t = 0 := ht.trans (by decide +kernel)
  exact ⟨hnumber, by decide +kernel, (htext 0).mpr rfl, hle, by decide +kernel, hmono 1e300 hle⟩

end BenchCharts.LatencyChart
