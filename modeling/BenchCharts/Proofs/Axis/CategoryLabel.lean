import BenchCharts.Axis.Label
import BenchCharts.Proofs.Axis.Pixel
import BenchCharts.Proofs.Binary.Round

/-!
# The labels of categories

A label belongs to the ticks that lie at most a millionth beside its category.  For a tick
that is not below zero the label is found: the difference to the nearest category is exact,
the literal of the tolerance is the last value that is not above a millionth
(`tolerance_lt_abs_iff`), and the position of the nearest category is its index
(`toUnsigned64_of_standsAt`).

Below zero nothing is ever shown, not even the label of the first category for a tick that
lies just below it, and a NaN shows the label of the first category
(`isLabelAt_categoryLabel_iff`, `exists_not_isLabelAt`).
-/

namespace BenchCharts.Axis

open Binary Format

/-- The value lies at most a millionth beside the category. -/
def IsTickOf (x : Double) (i : Nat) : Prop :=
  ∃ a, x.StandsAt a ∧ 10 ^ 6 * (a - (i * binary64.one : Nat)).natAbs ≤ binary64.one

/-- The text is the label of the category that the value is a tick of, and empty if it is not
a tick of any. -/
structure IsLabelAt (labels : List String) (x : Double) (text : String) : Prop where
  eq_label : ∀ i (h : i < labels.length), IsTickOf x i → text = labels[i]
  eq_empty : (∀ i < labels.length, ¬IsTickOf x i) → text = ""

/-! ## The tolerance -/

/-- The tolerance in units. -/
def toleranceUnits : Nat :=
  roundRatio binary64.digits binary64.one (10 ^ 6)

theorem standsAt_tolerance : categoryTolerance.StandsAt toleranceUnits :=
  ⟨by decide +kernel, by decide +kernel⟩

theorem toleranceUnits_mul_le : toleranceUnits * 10 ^ 6 ≤ binary64.one := by
  decide +kernel

/-- No value lies between the tolerance and a millionth. -/
theorem tolerance_lt_abs_iff {x : Double} {d : Int} (h : x.StandsAt d) :
    categoryTolerance < x.abs ↔ binary64.one < 10 ^ 6 * d.natAbs := by
  rw [lt_iff_of_rank standsAt_tolerance.rank_eq h.abs.rank_eq]
  have hmillionth := toleranceUnits_mul_le
  constructor
  · intro hlt
    apply Nat.lt_of_not_le
    intro hle
    rw [Nat.mul_comm] at hle
    have hrounded : d.natAbs ≤ toleranceUnits := by
      rw [toleranceUnits]
      exact le_roundRatio binary64.digits_pos (Nat.pow_pos (by decide)) h.fits.1 hle
    omega
  · intro hlt
    omega

/-! ## Ticks that are not below zero -/

/-- The position of a whole value is its index, up to the largest one. -/
theorem toUnsigned64_of_standsAt {x : Double} {k : Nat} (h : x.StandsAt (k * binary64.one : Nat)) :
    x.toUnsigned64 = min (2 ^ 64 - 1) k := by
  have hone : (binary64.one : Int) ≠ 0 := Int.natCast_ne_zero.mpr (Nat.ne_of_gt binary64.one_pos)
  have hindex : x.toInt 0 (2 ^ 64 - 1) = max 0 (min (2 ^ 64 - 1) (k : Int)) := by
    rw [toInt_of_rank h.rank_eq (by decide) (by decide) (by decide +kernel) (by decide +kernel),
      Int.natCast_mul, Int.mul_tdiv_cancel _ hone]
  rw [toUnsigned64, hindex]
  omega

section

variable {x : Double} {a : Int} (h : x.StandsAt a)

include h

theorem isTickOf_iff {i : Nat} :
    IsTickOf x i ↔ 10 ^ 6 * (a - (i * binary64.one : Nat)).natAbs ≤ binary64.one := by
  constructor
  · rintro ⟨b, hb, hle⟩
    obtain rfl : a = b := Option.some.inj (h.rank_eq.symm.trans hb.rank_eq)
    exact hle
  · exact fun hle => ⟨a, h, hle⟩

/-- A value is a tick of the nearest category only. -/
theorem eq_of_isTickOf {i k : Nat} (hk : 2 * (a - (k * binary64.one : Nat)).natAbs ≤ binary64.one)
    (hi : IsTickOf x i) : i = k := by
  have hone := binary64.one_pos
  rw [isTickOf_iff h] at hi
  apply Nat.le_antisymm
  · apply le_of_mul_one_lt binary64
    omega
  · apply le_of_mul_one_lt binary64
    omega

/-- The nearest category of a value that is not below zero. -/
theorem exists_nearest_category (hpos : 0 ≤ a) : ∃ k : Nat,
    x.round.StandsAt (k * binary64.one : Nat) ∧
      (x - x.round).StandsAt (a - (k * binary64.one : Nat)) ∧
      2 * (a - (k * binary64.one : Nat)).natAbs ≤ binary64.one := by
  have hone := binary64.one_pos
  obtain ⟨k, hround, hdiff, hhalf⟩ := exists_standsAt_round holdsWhole_binary64 h
  have hnonneg : 0 ≤ k := by
    apply Int.not_lt.mp
    intro hneg
    have hbelow : k * binary64.one ≤ -1 * binary64.one :=
      Int.mul_le_mul_of_nonneg_right (by omega) (Int.natCast_nonneg _)
    omega
  obtain ⟨n, rfl⟩ := Int.eq_ofNat_of_zero_le hnonneg
  exact ⟨n, hround, hdiff, hhalf⟩

/-- Not below zero a tick shows the label of its category, and nothing else shows one. -/
theorem isLabelAt_of_standsAt (hpos : 0 ≤ a) {labels : List String}
    (hsize : labels.length < 2 ^ 64) : IsLabelAt labels x (categoryLabel labels x) := by
  obtain ⟨k, hround, hdiff, hhalf⟩ := exists_nearest_category h hpos
  have hzero : ¬x < 0 := by
    rw [lt_iff_of_rank h.rank_eq standsAt_zero.rank_eq]
    omega
  have htick : IsTickOf x k ↔ ¬categoryTolerance < (x - x.round).abs := by
    rw [isTickOf_iff h, tolerance_lt_abs_iff hdiff]
    omega
  have honly : ∀ i, IsTickOf x i → i = k := fun i hi => eq_of_isTickOf h hhalf hi
  unfold categoryLabel
  rw [toUnsigned64_of_standsAt hround]
  split
  · rename_i hblank
    have hnone : ¬IsTickOf x k := fun hk => htick.mp hk (hblank.resolve_left hzero)
    exact ⟨fun i _ hi => absurd (honly i hi ▸ hi) hnone, fun _ => rfl⟩
  · rename_i hshown
    have hk : IsTickOf x k := htick.mpr fun hlt => hshown (.inr hlt)
    constructor
    · intro i hi hti
      obtain rfl := honly i hti
      have hindex : min (2 ^ 64 - 1) i = i := by omega
      rw [hindex, List.getElem?_eq_getElem hi, Option.getD_some]
    · intro hnone
      have hlarge : labels.length ≤ k := Nat.not_lt.mp fun hlt => hnone k hlt hk
      rw [List.getElem?_eq_none (by omega), Option.getD_none]

end

/-! ## All other values -/

theorem categoryLabel_of_neg (labels : List String) {x : Double} (h : x < 0) :
    categoryLabel labels x = "" :=
  if_pos (.inl h)

/-- The test of the tolerance fails for a NaN, as every comparison does. -/
theorem categoryLabel_of_sub_eq_nan (labels : List String) {x : Double} (hneg : ¬x < 0)
    (h : x - x.round = .nan) :
    categoryLabel labels x = labels[x.round.toUnsigned64]?.getD "" := by
  have hnan : ¬categoryTolerance < (x - x.round).abs := by
    rw [h]
    exact not_lt_nan categoryTolerance
  exact if_neg (not_or.mpr ⟨hneg, hnan⟩)

/-- A NaN shows what stands first. -/
theorem categoryLabel_nan (labels : List String) :
    categoryLabel labels .nan = labels[0]?.getD "" :=
  categoryLabel_of_sub_eq_nan labels (not_nan_lt 0) rfl

theorem categoryLabel_infinite {labels : List String} (hsize : labels.length < 2 ^ 64) :
    categoryLabel labels (.infinite false) = "" := by
  have hneg : ¬(.infinite false : Double) < 0 := by
    rw [lt_iff_of_rank rfl standsAt_zero.rank_eq, signed_false]
    exact Int.not_lt.mpr (Int.natCast_nonneg _)
  have hindex : (infinite false : Double).round.toUnsigned64 = 2 ^ 64 - 1 := rfl
  rw [categoryLabel_of_sub_eq_nan labels hneg rfl, hindex, List.getElem?_eq_none (by omega),
    Option.getD_none]

theorem not_isTickOf {x : Double} (h : x.isFinite = false) (i : Nat) : ¬IsTickOf x i := by
  rintro ⟨a, ha, -⟩
  exact absurd (h.symm.trans ha.isFinite) Bool.false_ne_true

/-- What is no tick shows the right text if it shows nothing. -/
theorem isLabelAt_iff_of_not_tick {labels : List String} {x : Double} {text : String}
    (h : ∀ i, ¬IsTickOf x i) : IsLabelAt labels x text ↔ text = "" :=
  ⟨fun hlabel => hlabel.eq_empty fun i _ => h i,
    fun hempty => ⟨fun i _ hi => absurd hi (h i), fun _ => hempty⟩⟩

/-- Below zero only the first category has ticks. -/
theorem eq_zero_of_isTickOf_of_neg {x : Double} {i : Nat} (hneg : x < 0) (hi : IsTickOf x i) :
    i = 0 := by
  obtain ⟨a, ha, hle⟩ := hi
  rw [lt_iff_of_rank ha.rank_eq standsAt_zero.rank_eq] at hneg
  have hone := binary64.one_pos
  apply Nat.eq_zero_of_not_pos
  intro hpos
  have hbeyond := Nat.le_mul_of_pos_left binary64.one hpos
  omega

/-- Below zero the empty text is right unless it stands for the first label. -/
theorem isLabelAt_empty_of_neg {labels : List String} {x : Double} (hneg : x < 0) :
    IsLabelAt labels x "" ↔ (IsTickOf x 0 → labels[0]?.getD "" = "") := by
  constructor
  · intro hlabel hfirst
    rcases Nat.eq_zero_or_pos labels.length with hnone | hsome
    · rw [List.getElem?_eq_none (by omega), Option.getD_none]
    · rw [List.getElem?_eq_getElem hsome, Option.getD_some]
      exact (hlabel.eq_label 0 hsome hfirst).symm
  · intro hblank
    constructor
    · intro i hlt hi
      obtain rfl := eq_zero_of_isTickOf_of_neg hneg hi
      have hfirst := hblank hi
      rw [List.getElem?_eq_getElem hlt, Option.getD_some] at hfirst
      exact hfirst.symm
    · exact fun _ => rfl

/-- Every tick shows the label of its category and everything else shows nothing, but for two
exceptions: a tick just below the first category shows nothing, and a NaN shows the first
label.  A list in memory is shorter than the largest index. -/
theorem isLabelAt_categoryLabel_iff {labels : List String} (hsize : labels.length < 2 ^ 64)
    (x : Double) :
    (IsLabelAt labels x (categoryLabel labels x) ↔
      (x = .nan ∨ x < 0 ∧ IsTickOf x 0 → labels[0]?.getD "" = "")) ∧
    (x < 0 → categoryLabel labels x = "") ∧
    (x = .nan → categoryLabel labels x = labels[0]?.getD "") := by
  refine ⟨?_, categoryLabel_of_neg labels, fun h => h ▸ categoryLabel_nan labels⟩
  by_cases hnan : x = .nan
  · rw [hnan, isLabelAt_iff_of_not_tick (not_isTickOf rfl), categoryLabel_nan]
    simp only [true_or, true_imp_iff]
  by_cases hneg : x < 0
  · rw [categoryLabel_of_neg labels hneg, isLabelAt_empty_of_neg hneg]
    simp only [hnan, hneg, true_and, false_or]
  have hright : IsLabelAt labels x (categoryLabel labels x) := by
    cases x with
    | nan => exact absurd rfl hnan
    | infinite negative =>
      rw [isLabelAt_iff_of_not_tick (not_isTickOf rfl)]
      cases negative with
      | false => exact categoryLabel_infinite hsize
      | true => exact absurd (by decide +kernel) hneg
    | finite s m hm =>
      have h : (finite s m hm).StandsAt (signed s m) := ⟨rfl, rfl⟩
      rw [lt_iff_of_rank h.rank_eq standsAt_zero.rank_eq] at hneg
      exact isLabelAt_of_standsAt h (Int.not_lt.mp hneg) hsize
  have hexception : ¬(x = .nan ∨ x < 0 ∧ IsTickOf x 0) :=
    not_or.mpr ⟨hnan, fun h => hneg h.1⟩
  exact iff_of_true hright fun h => absurd h hexception

/-- Noise below the second category does no harm. -/
theorem isLabelAt_categoryLabel_beside : ["a", "b"].length < 2 ^ 64 ∧
    IsLabelAt ["a", "b"] 0.9999999 (categoryLabel ["a", "b"] 0.9999999) := by
  refine ⟨by decide, (isLabelAt_categoryLabel_iff (by decide) 0.9999999).1.mpr ?_⟩
  rintro (hnan | ⟨hbelow, -⟩)
  · exact absurd hnan (by decide +kernel)
  · exact absurd hbelow (by decide +kernel)

/-- Noise below the first category hides its label, and a NaN shows it. -/
theorem exists_not_isLabelAt :
    ¬IsLabelAt ["a", "b"] (-1e-7) (categoryLabel ["a", "b"] (-1e-7)) ∧
      ¬IsLabelAt ["a", "b"] .nan (categoryLabel ["a", "b"] .nan) := by
  constructor
  · have hbelow : (-1e-7 : Double) < 0 := by decide +kernel
    have htick : IsTickOf (-1e-7) 0 :=
      ⟨-(roundRatio binary64.digits binary64.one (10 ^ 7) : Nat),
        ⟨by decide +kernel, by decide +kernel⟩, by decide +kernel⟩
    rw [categoryLabel_of_neg _ hbelow, isLabelAt_empty_of_neg hbelow]
    exact fun hblank => absurd (hblank htick) (by decide)
  · rw [categoryLabel_nan, isLabelAt_iff_of_not_tick (not_isTickOf rfl)]
    decide

end BenchCharts.Axis
