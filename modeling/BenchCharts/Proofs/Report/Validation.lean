import BenchCharts.Proofs.Report.Journal

/-!
# Checking all scenarios and checking those of a chart

The series of the latency chart come before those of the stability chart, so the check of
all scenarios is the check of the one chart and then that of the other
(`validate_eq_bind`).  A run reports what is wrong with the scenarios before it attempts a
chart, and the charts over them then fail with it (`exists_warning_mem_journal_iff`).
-/

namespace BenchCharts

/-! ## The check of all scenarios -/

namespace Scenarios

variable (x : Scenarios)

/-- All series in the order in which they are checked. -/
def allSeries : List Series :=
  [⟨"avg_latency", x.averageLatency⟩, ⟨"p95_latency", x.p95Latency⟩,
    ⟨"throughput", x.throughput⟩, ⟨"error_rate", x.errorRate⟩]

/-- The check of all scenarios is that of the latency chart and then that of the stability
chart. -/
theorem validate_eq_bind : x.validate
    = checkShape x.labels (x.seriesOf .latency) >>= fun _ =>
        checkShape x.labels (x.seriesOf .stability) :=
  checkShape_append x.labels (x.seriesOf .latency) (x.seriesOf .stability)

theorem exists_latencyChart_iff : (∃ c, LatencyChart.ofScenarios x = .ok c) ↔
    checkShape x.labels (x.seriesOf .latency) = .ok () := by
  simp [LatencyChart.ofScenarios_eq_ok_iff, seriesOf]

theorem exists_stabilityChart_iff : (∃ c, StabilityChart.ofScenarios x = .ok c) ↔
    checkShape x.labels (x.seriesOf .stability) = .ok () := by
  simp [StabilityChart.ofScenarios_eq_ok_iff, seriesOf]

/-- Scenarios are at fault if and only if those of one of the charts are. -/
theorem exists_validate_eq_error_iff {x : Scenarios} : (∃ e, x.validate = .error e) ↔
    (∃ e, checkShape x.labels (x.seriesOf .latency) = .error e) ∨
      ∃ e, checkShape x.labels (x.seriesOf .stability) = .error e := by
  simp only [validate_eq_bind, Except.bind_eq_error_iff]
  cases checkShape x.labels (x.seriesOf .latency) <;> simp

end Scenarios

/-! ## The warning of a run -/

namespace Settings

variable (s : Settings)

/-- The warning about scenarios is not mistaken for the one about a missing log. -/
theorem warning_ne_event (fault : ShapeError) (o : Outcome) (kind : ChartKind) :
    (⟨.warn, .report, s!"invalid scenarios: {fault.message}"⟩ : Event) ≠ o.event kind := by
  intro h
  cases o with
  | rendered path => cases h
  | failed e => cases h
  | skipped log =>
    have htext := congrArg String.toList (Event.mk.inj h).2.2
    simp [toString] at htext

/-- A run warns of its scenarios if and only if they are at fault. -/
theorem exists_warning_mem_journal_iff (t : FileTree) (sink : Sink) :
    (∃ fault : ShapeError, ⟨.warn, .report, s!"invalid scenarios: {fault.message}"⟩
      ∈ (s.run t sink).journal) ↔ ∃ fault, s.scenarios.validate = .error fault := by
  obtain ⟨warning, hwarning, hfault⟩ := s.exists_warnings_eq
  rw [(s.journal_run t sink).1, hwarning]
  constructor
  · intro h
    obtain ⟨fault, hmem⟩ := h
    rcases List.mem_append.mp hmem with hmem | hmem
    · obtain ⟨fault, hvalidate, _⟩ := (hfault _).mp (Option.mem_toList.mp hmem)
      exact ⟨fault, hvalidate⟩
    · obtain ⟨a, ha, he⟩ := List.mem_flatMap.mp hmem
      obtain ⟨u, hu⟩ := s.mem_attempts ((s.attemptsInto_isPrefix t sink).subset ha)
      rcases List.mem_append.mp he with he | he
      · rw [hu] at he
        cases s.level_of_mem_work he
      · obtain ⟨o, -, ho⟩ := Option.map_eq_some_iff.mp (Option.mem_toList.mp he)
        exact absurd ho.symm (warning_ne_event fault o a.kind)
  · intro h
    obtain ⟨fault, hvalidate⟩ := h
    have hsome := (hfault _).mpr ⟨fault, hvalidate, rfl⟩
    exact ⟨fault, List.mem_append_left _ (Option.mem_toList.mpr hsome)⟩

/-- The outcomes of attempts that all end begin with those of the charts over the scenarios. -/
theorem outcomes_of_attempts {s : Settings} {t : FileTree} {outcomes : List (ChartKind × Outcome)}
    (h : outcomesOf [] (s.attempts t ChartKind.all) = some outcomes) :
    (s.renderChart t .latency).outcome = (Summary.mk outcomes).outcome? .latency ∧
      (s.renderChart (s.renderChart t .latency).files .stability).outcome
        = (Summary.mk outcomes).outcome? .stability := by
  have hends : s.DrawingsEnd t ChartKind.all := by
    rw [← outcomesOf_attempts_ne_none_iff, h]
    exact Option.some_ne_none _
  obtain ⟨first, hfirst⟩ := exists_outcome_iff.mpr hends.1
  obtain ⟨second, hsecond⟩ := exists_outcome_iff.mpr hends.2.1
  rw [ChartKind.all, attempts_cons_of_some hfirst, attempts_cons_of_some hsecond,
    outcomesOf_cons_of_some _ hfirst, outcomesOf_cons_of_some _ hsecond] at h
  obtain ⟨more, rfl, -⟩ := exists_of_outcomesOf h
  exact ⟨hfirst, hsecond⟩

/-- The check of all scenarios agrees with the checks of the charts.

It passes if and only if both charts can be made of the scenarios, and if and only if there
are labels and every series has a value for each of them.  It fails with the error of the
latency chart if there is one, and otherwise with that of the stability chart: without
labels with the error that says so, and else with the first series in their order whose
length is not the number of labels, and with both numbers.

So a run warns of its scenarios if and only if the outcome of the latency chart or that of
the stability chart is such an error, whatever the files are, and if it ends well these
are outcomes of its summary. -/
theorem validate_agrees_with_charts (s : Settings) :
    let x := s.scenarios
    (x.validate = .ok () ↔
      (∃ c, LatencyChart.ofScenarios x = .ok c) ∧ ∃ c, StabilityChart.ofScenarios x = .ok c) ∧
    (x.validate = .ok () ↔ x.labels ≠ [] ∧
      x.averageLatency.length = x.labels.length ∧ x.p95Latency.length = x.labels.length ∧
      x.throughput.length = x.labels.length ∧ x.errorRate.length = x.labels.length) ∧
    (∀ e, x.validate = .error e ↔ LatencyChart.ofScenarios x = .error e ∨
      (∃ c, LatencyChart.ofScenarios x = .ok c) ∧ StabilityChart.ofScenarios x = .error e) ∧
    (x.validate = .error .noScenarios ↔ x.labels = []) ∧
    (∀ name expected actual, x.validate = .error (.lengthMismatch name expected actual) ↔
      x.labels ≠ [] ∧ expected = x.labels.length ∧ actual ≠ expected ∧
        ∃ before v after, x.allSeries = before ++ v :: after ∧
          (∀ w ∈ before, w.values.length = expected) ∧
          v.name = name ∧ v.values.length = actual) ∧
    ∀ t sink,
      let r := s.run t sink
      let warns := ∃ fault : ShapeError,
        ⟨.warn, .report, s!"invalid scenarios: {fault.message}"⟩ ∈ r.journal
      (∀ u, warns ↔
        (∃ e, (s.renderChart u .latency).outcome = some (.failed (.invalidScenarios e))) ∨
          ∃ e, (s.renderChart u .stability).outcome = some (.failed (.invalidScenarios e))) ∧
      ∀ summary, r.result = some (.ok summary) → (warns ↔
        (∃ e, summary.outcome? .latency = some (.failed (.invalidScenarios e))) ∨
          ∃ e, summary.outcome? .stability = some (.failed (.invalidScenarios e))) := by
  intro x
  refine ⟨?_, ?_, fun e => ?_, checkShape_eq_noScenarios_iff,
    fun _ _ _ => checkShape_eq_lengthMismatch_iff, ?_⟩
  · rw [x.exists_latencyChart_iff, x.exists_stabilityChart_iff, x.validate_eq_bind,
      Except.check_bind_eq_ok_iff]
  · refine checkShape_eq_ok_iff.trans ?_
    simp [Scenarios.averageSeries, Scenarios.p95Series, Scenarios.throughputSeries,
      Scenarios.errorSeries, x]
  · rw [LatencyChart.ofScenarios_eq_error_iff, StabilityChart.ofScenarios_eq_error_iff,
      x.exists_latencyChart_iff, x.validate_eq_bind, Except.check_bind_eq_error_iff]
    rfl
  · intro t sink r warns
    have hwarns : warns ↔ (∃ e, checkShape x.labels (x.seriesOf .latency) = .error e) ∨
        ∃ e, checkShape x.labels (x.seriesOf .stability) = .error e :=
      (s.exists_warning_mem_journal_iff t sink).trans Scenarios.exists_validate_eq_error_iff
    have houtcomes : ∀ u v, warns ↔
        (∃ e, (s.renderChart u .latency).outcome = some (.failed (.invalidScenarios e))) ∨
          ∃ e, (s.renderChart v .stability).outcome = some (.failed (.invalidScenarios e)) := by
      intro u v
      rw [hwarns]
      simp [outcome_eq_invalidScenarios_iff, x]
    refine ⟨fun u => houtcomes u u, fun summary hok => ?_⟩
    obtain ⟨hall, hsummary⟩ := (s.journal_run t sink).2 summary hok
    rw [hall] at hsummary
    obtain ⟨hlatency, hstability⟩ := outcomes_of_attempts hsummary
    rw [houtcomes t (s.renderChart t .latency).files, hlatency, hstability]

end Settings

end BenchCharts
