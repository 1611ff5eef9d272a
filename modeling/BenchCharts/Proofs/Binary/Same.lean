import BenchCharts.Proofs.Binary.Rank

/-!
# Values that are the same number

Two values are the same number if they stand at the same place (`same_iff_rank`); they then
differ at most in the sign of a zero.  Sums, products and comparisons do not tell such values
apart (`Same.add`, `Same.mul_right`, `Same.lt_iff`).

The best of some values is told by the places where they stand, whatever their order and
number (`IsBest.le_of_forall`).
-/

namespace BenchCharts.Binary

variable {f : Format} {x x' y y' : Binary f}

/-- The values are numerically equal, or both of them are a NaN. -/
def Same (x y : Binary f) : Prop :=
  x.equals y = true ∨ x.isNaN = true ∧ y.isNaN = true

theorem same_iff_rank : x.Same y ↔ x.rank = y.rank := by
  unfold Same
  cases x <;> cases y <;> simp [equals, compareRank, rank, isNaN]

theorem Same.rank_eq (h : x.Same y) : x.rank = y.rank :=
  same_iff_rank.mp h

theorem same_of_rank {r : Option Int} (hx : x.rank = r) (hy : y.rank = r) : x.Same y :=
  same_iff_rank.mpr (hx.trans hy.symm)

theorem Same.refl (x : Binary f) : x.Same x :=
  same_of_rank rfl rfl

theorem Same.trans {z : Binary f} (h : x.Same y) (h' : y.Same z) : x.Same z :=
  same_of_rank h.rank_eq h'.rank_eq.symm

/-- The same number is the same value or a finite one. -/
theorem Same.eq_or_standsAt (h : x.Same y) : x = y ∨ ∃ a, x.StandsAt a ∧ y.StandsAt a := by
  cases hx : x.isFinite with
  | true =>
    obtain ⟨a, ha⟩ := exists_standsAt hx
    have hy : y.rank = some a := h.rank_eq.symm.trans ha.rank_eq
    exact .inr ⟨a, ha, standsAt_of_rank hy ((isFinite_iff_of_rank ha.rank_eq).mp hx)⟩
  | false =>
    refine .inl ?_
    cases x with
    | finite => cases hx
    | infinite s => exact ((eq_infinite_iff_of_rank h.rank_eq.symm s).mpr rfl).symm
    | nan =>
      cases y with
      | nan => rfl
      | infinite | finite => cases h.rank_eq

/-! ## Arithmetic -/

theorem Same.add_left (x : Binary f) (h : y.Same y') : (x + y).Same (x + y') := by
  obtain rfl | ⟨b, hy, hy'⟩ := h.eq_or_standsAt
  · exact .refl _
  cases hx : x.isFinite with
  | true =>
    obtain ⟨a, ha⟩ := exists_standsAt hx
    exact same_of_rank (rank_add ha hy) (rank_add ha hy')
  | false =>
    cases x with
    | finite => cases hx
    | nan => exact .refl _
    | infinite s =>
      cases y with
      | nan | infinite => cases hy.isFinite
      | finite =>
        cases y' with
        | nan | infinite => cases hy'.isFinite
        | finite => exact .refl _

theorem Same.add_right (h : x.Same x') (y : Binary f) : (x + y).Same (x' + y) := by
  obtain rfl | ⟨a, hx, hx'⟩ := h.eq_or_standsAt
  · exact .refl _
  cases hy : y.isFinite with
  | true =>
    obtain ⟨b, hb⟩ := exists_standsAt hy
    exact same_of_rank (rank_add hx hb) (rank_add hx' hb)
  | false =>
    cases x with
    | nan | infinite => cases hx.isFinite
    | finite =>
      cases x' with
      | nan | infinite => cases hx'.isFinite
      | finite =>
        cases y with
        | finite => cases hy
        | nan | infinite => exact .refl _

theorem Same.add (hx : x.Same x') (hy : y.Same y') : (x + y).Same (x' + y') :=
  (hx.add_right y).trans (hy.add_left x')

theorem Same.neg (h : x.Same y) : (-x).Same (-y) := by
  obtain rfl | ⟨a, hx, hy⟩ := h.eq_or_standsAt
  · exact .refl _
  · exact same_of_rank hx.neg.rank_eq hy.neg.rank_eq

theorem Same.sub (hx : x.Same x') (hy : y.Same y') : (x - y).Same (x' - y') :=
  hx.add hy.neg

theorem Same.mul_right (h : x.Same x') (hy : y.isFinite = true) : (x * y).Same (x' * y) := by
  obtain rfl | ⟨a, hx, hx'⟩ := h.eq_or_standsAt
  · exact .refl _
  · obtain ⟨b, hb⟩ := exists_standsAt hy
    exact same_of_rank (rank_mul hx hb) (rank_mul hx' hb)

/-! ## Comparisons -/

theorem Same.lt_iff (hx : x.Same x') (hy : y.Same y') : x < y ↔ x' < y' := by
  rw [Binary.lt_iff, Binary.lt_iff, hx.rank_eq, hy.rank_eq]

theorem Same.equals_eq (hx : x.Same x') (hy : y.Same y') : x.equals y = x'.equals y' := by
  unfold equals compareRank
  rw [hx.rank_eq, hy.rank_eq]

/-! ## The best value -/

/-- Everything that is a number is at least the lower infinity. -/
theorem maximum_infinite_true (h : x.isNaN = false) : maximum (.infinite true) x = x := by
  obtain ⟨a, ha⟩ := isNaN_eq_false_iff.mp h
  have hle := natAbs_rank_le ha
  have hrank : (infinite true : Binary f).rank = some (-((2 ^ f.limit : Nat) : Int)) := rfl
  have hfirst : (infinite true : Binary f).isNaN = false := rfl
  rw [maximum, hfirst, if_neg Bool.false_ne_true]
  simp only [lt_iff_of_rank hrank ha]
  split
  · rfl
  · exact ((eq_infinite_iff_of_rank ha true).mpr (by rw [signed_true]; omega)).symm

/-- What is the best of some values is at least as good as the best of others that all stand
where one of them stands. -/
theorem IsBest.le_of_forall {le : Int → Int → Prop} {xs ys : List (Binary f)} {r s : Int}
    (hx : IsBest le x xs y r) (hy : IsBest le x ys y' s)
    (h : ∀ v ∈ ys, ∀ a, v.rank = some a → ∃ w ∈ xs, w.rank = some a) : le s r := by
  rcases hy.eq_or_mem with hfirst | hmem
  · exact hx.le_first s (hfirst ▸ hy.rank_eq)
  · obtain ⟨w, hw, hrank⟩ := h y' hmem s hy.rank_eq
    exact hx.le_of_mem w hw s hrank

end BenchCharts.Binary
