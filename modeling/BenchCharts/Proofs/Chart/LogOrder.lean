import BenchCharts.Chart.Resources
import BenchCharts.Chart.Stability
import BenchCharts.Proofs.Axis.SameValues

/-!
# The order of a log

The axes of a chart are the same for series of the same values (`axes_of_same_values`), so
the order in which samples were logged does not change them.  The axis of error rates is the
one for which a NaN can count: a series of nothing but NaNs has no largest value
(`largest_eq_nan`), while among numbers a NaN gives way to them (`largest_eq_foldl`).
-/

namespace BenchCharts

open Axis Binary

namespace StabilityChart

variable {rates rates' : List Double}

/-- Among numbers the largest value is that above the lower infinity. -/
theorem largest_eq_foldl (h : ∃ v ∈ rates, v.isNaN = false) :
    largest rates = rates.foldl maximum (.infinite true) := by
  induction rates with
  | nil =>
    obtain ⟨v, hv, _⟩ := h
    cases hv
  | cons first rest ih =>
    rw [List.foldl_cons]
    cases hfirst : first.isNaN with
    | false => rw [maximum_infinite_true hfirst, largest]
    | true =>
      obtain rfl : first = .nan := by
        cases first with
        | nan => rfl
        | infinite | finite => cases hfirst
      obtain ⟨v, hv, hnumber⟩ := h
      have hrest : v ∈ rest := by
        rcases List.mem_cons.mp hv with rfl | hrest
        · cases hnumber
        · exact hrest
      obtain ⟨second, more, rfl⟩ := List.exists_cons_of_ne_nil (List.ne_nil_of_mem hrest)
      exact ih ⟨v, hrest, hnumber⟩

/-- Without a number among them, values have a NaN as the largest. -/
theorem largest_eq_nan (hne : rates ≠ []) (h : ∀ v ∈ rates, v.isNaN = true) :
    largest rates = .nan := by
  induction rates with
  | nil => exact absurd rfl hne
  | cons first rest ih =>
    obtain ⟨hfirst, hrest⟩ := List.forall_mem_cons.mp h
    cases first with
    | infinite | finite => cases hfirst
    | nan =>
      cases rest with
      | nil => rfl
      | cons second more => exact ih (List.cons_ne_nil _ _) hrest

theorem same_errorAxisTop (h : (largest rates).Same (largest rates')) :
    (errorAxisTop rates).Same (errorAxisTop rates') :=
  h.add_right errorHeadroom

/-- A NaN beside a number does not count. -/
theorem same_largest_of_sameValues (h : SameValues rates rates')
    (hnumber : ∃ v ∈ rates, v.isNaN = false) : (largest rates).Same (largest rates') := by
  obtain ⟨v, hv, hnan⟩ := hnumber
  rw [largest_eq_foldl ⟨v, hv, hnan⟩, largest_eq_foldl ⟨v, (h v hnan).mp hv, hnan⟩]
  exact h.same_foldl_maximum rfl

theorem same_largest_of_mem_iff (h : ∀ v, v ∈ rates ↔ v ∈ rates') :
    (largest rates).Same (largest rates') := by
  by_cases hnumber : ∃ v ∈ rates, v.isNaN = false
  · exact same_largest_of_sameValues (sameValues_of_mem_iff h) hnumber
  · have hnan : ∀ v ∈ rates, v.isNaN = true := by
      intro v hv
      cases hcase : v.isNaN with
      | true => rfl
      | false => exact absurd ⟨v, hv, hcase⟩ hnumber
    by_cases hne : rates = []
    · subst hne
      have hnil : rates' = [] := List.eq_nil_iff_forall_not_mem.mpr fun v hv =>
        List.not_mem_nil ((h v).mpr hv)
      rw [hnil]
      exact .refl _
    · obtain ⟨v, hv⟩ := List.exists_mem_of_ne_nil rates hne
      rw [largest_eq_nan hne hnan, largest_eq_nan (List.ne_nil_of_mem ((h v).mp hv))
        fun w hw => hnan w ((h w).mpr hw)]
      exact .refl _

end StabilityChart

/-- Samples in another order, or logged repeatedly, are the same values of each kind. -/
theorem ResourceChart.sameValues_map {c c' : ResourceChart}
    (h : ∀ s, s ∈ c.samples ↔ s ∈ c'.samples) (value : ResourceLog.Sample → Double) :
    SameValues (c.samples.map value) (c'.samples.map value) := by
  apply sameValues_of_mem_iff
  intro v
  simp only [List.mem_map, h]

/-- The axes are told by the sets of values on them.

Series of the same values have the same axes, up from zero and with margins, and the same
axis of error rates if any of the rates is a number; in each case a NaN more or less makes no
difference.  Series of the same rates, with the NaNs counted, have the same axis of error
rates.  So the samples of a log have the same axes in whatever order and number they were
logged. -/
theorem axes_of_same_values :
    (∀ xs ys, SameValues xs ys →
      (headroom xs).Same (headroom ys) ∧ (padded xs).Same (padded ys)) ∧
    (∀ xs ys, SameValues xs ys → (∃ v ∈ xs, v.isNaN = false) →
      (StabilityChart.errorAxisTop xs).Same (StabilityChart.errorAxisTop ys)) ∧
    (∀ xs ys : List Double, (∀ v, v ∈ xs ↔ v ∈ ys) →
      (StabilityChart.errorAxisTop xs).Same (StabilityChart.errorAxisTop ys)) ∧
    (∀ c c' : ResourceChart, (∀ s, s ∈ c.samples ↔ s ∈ c'.samples) →
      c.timeRange.Same c'.timeRange ∧ c.cpuRange.Same c'.cpuRange ∧
        c.ramRange.Same c'.ramRange) := by
  refine ⟨?_, ?_, ?_, ?_⟩
  · intro xs ys h
    exact ⟨h.same_headroom, h.same_padded⟩
  · intro xs ys h hnumber
    exact StabilityChart.same_errorAxisTop
      (StabilityChart.same_largest_of_sameValues h hnumber)
  · intro xs ys h
    exact StabilityChart.same_errorAxisTop (StabilityChart.same_largest_of_mem_iff h)
  · intro c c' h
    have hvalues := ResourceChart.sameValues_map h
    exact ⟨(hvalues (·.time)).same_padded, (hvalues (·.cpu)).same_upFromZero,
      (hvalues (·.ram)).same_padded⟩

/-- A NaN, a repetition and the other order. -/
theorem axes_of_same_values_repeated :
    let xs : List Double := [2, .nan, 1, 2]
    let ys : List Double := [1, 2]
    let c : ResourceChart := { samples := [⟨5, 1, .nan⟩, ⟨2, 2, 2⟩] }
    let c' : ResourceChart := { samples := [⟨2, 2, 2⟩, ⟨5, 1, .nan⟩, ⟨2, 2, 2⟩] }
    (SameValues xs ys ∧ (headroom xs).Same (headroom ys) ∧ (padded xs).Same (padded ys)) ∧
    ((∃ v ∈ xs, v.isNaN = false) ∧
      (StabilityChart.errorAxisTop xs).Same (StabilityChart.errorAxisTop ys)) ∧
    ((∀ v, v ∈ xs ↔ v ∈ xs.reverse) ∧
      (StabilityChart.errorAxisTop xs).Same (StabilityChart.errorAxisTop xs.reverse)) ∧
    ((∀ s, s ∈ c.samples ↔ s ∈ c'.samples) ∧ c.ramRange.Same c'.ramRange) := by
  intro xs ys c c'
  obtain ⟨hranges, hrates, hsame, hcharts⟩ := axes_of_same_values
  have hvalues : SameValues xs ys := by
    intro v hv
    have hnan : v ≠ .nan := by
      rintro rfl
      cases hv
    simp only [xs, ys, List.mem_cons, List.not_mem_nil, or_false, hnan, false_or]
    grind
  have hnumber : ∃ v ∈ xs, v.isNaN = false := ⟨2, List.mem_cons_self, by decide +kernel⟩
  have hreverse : ∀ v, v ∈ xs ↔ v ∈ xs.reverse := fun v => List.mem_reverse.symm
  have hsamples : ∀ s, s ∈ c.samples ↔ s ∈ c'.samples := by
    intro s
    simp only [c, c', List.mem_cons, List.not_mem_nil, or_false]
    grind
  exact ⟨⟨hvalues, hranges xs ys hvalues⟩, ⟨hnumber, hrates xs ys hvalues hnumber⟩,
    ⟨hreverse, hsame xs xs.reverse hreverse⟩, hsamples, (hcharts c c' hsamples).2.2⟩

end BenchCharts
