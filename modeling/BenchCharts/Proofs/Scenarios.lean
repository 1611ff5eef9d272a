import BenchCharts.Chart.Latency
import BenchCharts.Chart.Stability
import BenchCharts.Proofs.Except

/-!
# Series that fit their labels

`checkShape` is one function for all four series and for the two of each chart.
`checkShape_append` carries what these checks have to do with each other: several series
pass if and only if the first ones and the others pass, and what is wrong with the first
ones is reported first.  The other lemmas say when series pass and with what they fail.
-/

namespace BenchCharts

/-! ## Checking series -/

section

variable {labels : List String} {series : List Series}

theorem checkShape_of_nil (series : List Series) : checkShape [] series = .error .noScenarios :=
  rfl

theorem checkShape_of_ne_nil (h : labels ≠ []) (series : List Series) :
    checkShape labels series
      = match series.find? (·.values.length ≠ labels.length) with
        | none => .ok ()
        | some v => .error (.lengthMismatch v.name labels.length v.values.length) :=
  if_neg h

/-- Series are checked one after another. -/
theorem checkShape_append (labels : List String) (xs ys : List Series) :
    checkShape labels (xs ++ ys) = checkShape labels xs >>= fun _ => checkShape labels ys := by
  by_cases h : labels = []
  · rw [h]
    rfl
  · simp only [checkShape_of_ne_nil h, List.find?_append]
    cases xs.find? (·.values.length ≠ labels.length) <;> rfl

theorem checkShape_eq_ok_iff : checkShape labels series = .ok () ↔
    labels ≠ [] ∧ ∀ v ∈ series, v.values.length = labels.length := by
  by_cases h : labels = []
  · simp [h, checkShape_of_nil]
  · rw [checkShape_of_ne_nil h]
    cases hfound : series.find? (·.values.length ≠ labels.length) with
    | none => simpa [h] using hfound
    | some v =>
      have hmem := List.mem_of_find?_eq_some hfound
      have hwrong := List.find?_some hfound
      exact iff_of_false nofun fun hfit => of_decide_eq_true hwrong (hfit.2 v hmem)

theorem checkShape_eq_noScenarios_iff :
    checkShape labels series = .error .noScenarios ↔ labels = [] := by
  by_cases h : labels = []
  · simp [h, checkShape_of_nil]
  · rw [checkShape_of_ne_nil h]
    cases series.find? (·.values.length ≠ labels.length) <;> simp [h]

/-- The first series whose length is not the number of labels is named, with both numbers. -/
theorem checkShape_eq_lengthMismatch_iff {name : String} {expected actual : Nat} :
    checkShape labels series = .error (.lengthMismatch name expected actual) ↔
      labels ≠ [] ∧ expected = labels.length ∧ actual ≠ expected ∧
        ∃ before v after, series = before ++ v :: after ∧
          (∀ w ∈ before, w.values.length = expected) ∧
          v.name = name ∧ v.values.length = actual := by
  by_cases h : labels = []
  · simp [h, checkShape_of_nil]
  rw [checkShape_of_ne_nil h]
  constructor
  · intro hcheck
    cases hfound : series.find? (·.values.length ≠ labels.length) with
    | none =>
      rw [hfound] at hcheck
      cases hcheck
    | some v =>
      rw [hfound] at hcheck
      obtain ⟨hwrong, before, after, hseries, hbefore⟩ := List.find?_eq_some_iff_append.mp hfound
      obtain ⟨rfl, rfl, rfl⟩ : v.name = name ∧ labels.length = expected ∧
          v.values.length = actual := by
        simpa using hcheck
      refine ⟨h, rfl, of_decide_eq_true hwrong, before, v, after, hseries, ?_, rfl, rfl⟩
      simpa using hbefore
  · intro hfirst
    obtain ⟨_, rfl, hwrong, before, v, after, rfl, hbefore, rfl, rfl⟩ := hfirst
    have hfound : (before ++ v :: after).find? (·.values.length ≠ labels.length) = some v := by
      rw [List.find?_eq_some_iff_append]
      exact ⟨decide_eq_true hwrong, before, after, rfl, by simpa using hbefore⟩
    rw [hfound]

end

/-! ## Making charts of scenarios -/

section

variable {x : Scenarios} {e : ShapeError}

/-- A latency chart takes the labels and its two series as they are. -/
theorem LatencyChart.ofScenarios_eq_ok_iff {c : LatencyChart} : ofScenarios x = .ok c ↔
    checkShape x.labels [x.averageSeries, x.p95Series] = .ok () ∧
      c = ⟨x.labels, x.averageLatency, x.p95Latency⟩ := by
  rw [ofScenarios, Except.check_bind_eq_ok_iff, Except.ok.injEq, eq_comm (a := c)]

theorem LatencyChart.ofScenarios_eq_error_iff : ofScenarios x = .error e ↔
    checkShape x.labels [x.averageSeries, x.p95Series] = .error e := by
  simp [ofScenarios, Except.check_bind_eq_error_iff]

/-- A stability chart takes the labels and its two series as they are. -/
theorem StabilityChart.ofScenarios_eq_ok_iff {c : StabilityChart} : ofScenarios x = .ok c ↔
    checkShape x.labels [x.throughputSeries, x.errorSeries] = .ok () ∧
      c = ⟨x.labels, x.throughput, x.errorRate⟩ := by
  rw [ofScenarios, Except.check_bind_eq_ok_iff, Except.ok.injEq, eq_comm (a := c)]

theorem StabilityChart.ofScenarios_eq_error_iff : ofScenarios x = .error e ↔
    checkShape x.labels [x.throughputSeries, x.errorSeries] = .error e := by
  simp [ofScenarios, Except.check_bind_eq_error_iff]

end

end BenchCharts
