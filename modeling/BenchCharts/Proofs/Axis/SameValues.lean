import BenchCharts.Proofs.Axis.Drawable
import BenchCharts.Proofs.Binary.Same

/-!
# Axes of the same values

An axis that is computed from a series is told by the values of the series alone: neither
their order nor their number matters, and a NaN does not count.  All that the computation
knows of a series is its best values, and these stand at the same places for series of the
same values (`same_foldl_maximum`, `same_extremes`).
-/

namespace BenchCharts.Axis

open Binary

/-- Both series hold the same values, in whatever order and number.  A NaN is no value. -/
def SameValues (xs ys : List Double) : Prop :=
  ∀ v : Double, v.isNaN = false → (v ∈ xs ↔ v ∈ ys)

/-- The ranges have the same numbers as bounds. -/
structure Range.Same (r r' : Range) : Prop where
  start_same : r.start.Same r'.start
  stop_same : r.stop.Same r'.stop

theorem same_mk {start start' stop stop' : Double} (hstart : start.Same start')
    (hstop : stop.Same stop') : (Range.mk start stop).Same (Range.mk start' stop') :=
  ⟨hstart, hstop⟩

variable {xs ys : List Double}

theorem SameValues.symm (h : SameValues xs ys) : SameValues ys xs :=
  fun v hv => (h v hv).symm

theorem sameValues_of_mem_iff (h : ∀ v, v ∈ xs ↔ v ∈ ys) : SameValues xs ys :=
  fun v _ => h v

theorem SameValues.exists_rank (h : SameValues xs ys) :
    ∀ v ∈ ys, ∀ a, v.rank = some a → ∃ w ∈ xs, w.rank = some a :=
  fun v hv a ha => ⟨v, (h v (isNaN_eq_false_iff.mpr ⟨a, ha⟩)).mpr hv, ha⟩

/-- The best of the same values stand at the same place. -/
theorem SameValues.same_of_isBest (h : SameValues xs ys) {le : Int → Int → Prop}
    (hantisymm : ∀ {a b}, le a b → le b a → a = b) {x y y' : Double} {r s : Int}
    (hx : IsBest le x xs y r) (hy : IsBest le x ys y' s) : y.Same y' := by
  have hrank : r = s :=
    hantisymm (hy.le_of_forall hx h.symm.exists_rank) (hx.le_of_forall hy h.exists_rank)
  exact same_of_rank (hx.rank_eq.trans (congrArg some hrank)) hy.rank_eq

theorem SameValues.same_foldl_maximum (h : SameValues xs ys) {x : Double} {a : Int}
    (hx : x.rank = some a) : (xs.foldl maximum x).Same (ys.foldl maximum x) := by
  obtain ⟨r, hr⟩ := exists_isBest_foldl (· ≤ ·) Int.le_refl Int.le_trans isBest_maximum xs x a hx
  obtain ⟨s, hs⟩ := exists_isBest_foldl (· ≤ ·) Int.le_refl Int.le_trans isBest_maximum ys x a hx
  exact h.same_of_isBest Int.le_antisymm hr hs

theorem SameValues.same_extremes (h : SameValues xs ys) :
    (extremes xs).1.Same (extremes ys).1 ∧ (extremes xs).2.Same (extremes ys).2 := by
  obtain ⟨_, _, hlow, hhigh⟩ := exists_isBest_extremes xs
  obtain ⟨_, _, hlow', hhigh'⟩ := exists_isBest_extremes ys
  exact ⟨h.same_of_isBest (fun hab hba => Int.le_antisymm hba hab) hlow hlow',
    h.same_of_isBest Int.le_antisymm hhigh hhigh'⟩

theorem SameValues.same_headroom (h : SameValues xs ys) : (headroom xs).Same (headroom ys) := by
  have htop := h.same_foldl_maximum standsAt_zero.rank_eq
  unfold headroom
  simp only [(Same.refl 0).lt_iff htop]
  split
  · exact htop.mul_right (by decide +kernel)
  · exact .refl 1

theorem SameValues.same_upFromZero (h : SameValues xs ys) :
    (Range.mk 0 (headroom xs)).Same (Range.mk 0 (headroom ys)) :=
  same_mk (.refl 0) h.same_headroom

theorem SameValues.same_padded (h : SameValues xs ys) : (padded xs).Same (padded ys) := by
  obtain ⟨hlow, hhigh⟩ := h.same_extremes
  unfold padded
  generalize extremes xs = bounds at *
  generalize extremes ys = bounds' at *
  obtain ⟨low, high⟩ := bounds
  obtain ⟨low', high'⟩ := bounds'
  simp only at hlow hhigh ⊢
  simp only [hhigh.lt_iff hlow, hlow.equals_eq hhigh]
  split
  · exact same_mk (.refl 0) (.refl 1)
  split
  · exact same_mk (hlow.sub (.refl 1)) (hhigh.add (.refl 1))
  · have hpad := (hhigh.sub hlow).mul_right (y := 0.05) (by decide +kernel)
    exact same_mk (hlow.sub hpad) (hhigh.add hpad)

end BenchCharts.Axis
