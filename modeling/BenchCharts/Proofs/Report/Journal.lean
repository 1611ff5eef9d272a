import BenchCharts.Proofs.Report.Decision
import BenchCharts.Proofs.Report.Interruption

/-!
# What a run reports

The journal of a run is the warning about its scenarios and then, chart by chart, the
events of each attempt that the run comes to (`journal_run`).  An attempt reports the
samples that it has read and the image that it is about to write, and last its outcome, if it
comes to one (`reports_renderChart`).

Only the outcomes have levels other than `debug`, so counting the events of a level counts
outcomes (`countP_flatMap_journal`).
-/

namespace BenchCharts

open FileTree ResourceLog

/-! ## Outcomes by their levels -/

namespace Outcome

/-- There was no log to chart. -/
def isSkipped : Outcome → Bool
  | skipped _ => true
  | _ => false

/-- The chart failed. -/
def isFailed : Outcome → Bool
  | failed _ => true
  | _ => false

variable (o : Outcome) (kind : ChartKind)

theorem level_event_eq_info_iff : (o.event kind).level = .info ↔ o.isRendered = true := by
  cases o <;> simp [event, isRendered]

theorem level_event_eq_warn_iff : (o.event kind).level = .warn ↔ o.isSkipped = true := by
  cases o <;> simp [event, isSkipped]

theorem level_event_eq_error_iff : (o.event kind).level = .error ↔ o.isFailed = true := by
  cases o <;> simp [event, isFailed]

end Outcome

namespace Settings

variable (s : Settings)

/-! ## The events of an attempt -/

/-- What is reported about the attempt `a` on the files `u`: in `loading` the samples that
were read, in `drawing` the image that is to be written, and in `telling` the outcome.

* Samples are reported if and only if the log exists and all of its rows are good.
* An image is reported if and only if its chart has data, whether or not the image can be
  written then, and whether or not drawing it ends.
* The outcome is reported if and only if there is one, at a level of its own, and a failure is
  reported with the text that the status line has.  There is none if drawing never ends. -/
structure Reports (u : FileTree) (a : Attempted) (loading drawing telling : Option Event) :
    Prop where
  journal_eq : a.journal = loading.toList ++ drawing.toList ++ telling.toList
  loading_iff : ∀ e, loading = some e ↔ a.kind = .resources ∧
    ∃ samples, GoodLog u s.resourceLog samples ∧
      e = ⟨.debug, .resourceLog,
        s!"loaded {samples.length} resource samples from {s.resourceLog}"⟩
  drawing_iff : ∀ e, drawing = some e ↔
    s.HasData u a.kind ∧ e = ⟨.debug, .chart, s!"rendering {s.pathOf a.kind}"⟩
  telling_eq_none_iff : telling = none ↔ ¬s.DrawingEnds u a.kind
  outcome_eq_none_iff : a.outcome = none ↔ ¬s.DrawingEnds u a.kind
  rendered : ∀ path, a.outcome = some (.rendered path) →
    telling = some ⟨.info, .report, s!"rendered {a.kind.title} to {path}"⟩
  skipped : ∀ log, a.outcome = some (.skipped log) → log = s.resourceLog ∧
    telling = some ⟨.warn, .report, s!"skipping {a.kind.title}: {log} not found"⟩
  failed : ∀ e, a.outcome = some (.failed e) →
    telling = some ⟨.error, .report, s!"failed to render {a.kind.title}: {e.message}"⟩ ∧
    (Outcome.failed e).status a.kind = s!"Error: {a.kind.title} not rendered: {e.message}\n"

/-- The event about samples that were read. -/
def loadingEvent (n : Nat) : Event :=
  ⟨.debug, .resourceLog, s!"loaded {n} resource samples from {s.resourceLog}"⟩

/-- The event about an image that is to be written. -/
def drawingEvent (kind : ChartKind) : Event :=
  ⟨.debug, .chart, s!"rendering {s.pathOf kind}"⟩

/-- The event about the samples of a figure, if it has any to show. -/
def loadingOf : Figure → Option Event
  | .resources c => some (s.loadingEvent c.samples.length)
  | _ => none

/-- What is reported on the way to an outcome when the data of a chart have been
collected. -/
def workOf (kind : ChartKind) : Except ReportError (Option Figure) → Journal
  | .ok (some f) => (s.loadingOf f).toList ++ [s.drawingEvent kind]
  | _ => []

theorem journal_render (t : FileTree) (f : Figure) :
    (s.render t f.chart).journal = [s.drawingEvent f.kind] := by
  rw [render, s.imagePath_chart f]
  rcases s.writeImage t f.chart with _ | e | u <;> rfl

/-- What is reported on the way to an outcome depends on the data of the chart alone. -/
theorem work_renderChart (t : FileTree) (kind : ChartKind) :
    (s.renderChart t kind).work = s.workOf kind (s.figure t kind) := by
  cases kind with
  | latency =>
    rw [renderChart, renderKind, renderLatency, figure]
    cases LatencyChart.ofScenarios s.scenarios with
    | error e => rfl
    | ok c => exact s.journal_render t (.latency c)
  | stability =>
    rw [renderChart, renderKind, renderStability, figure]
    cases StabilityChart.ofScenarios s.scenarios with
    | error e => rfl
    | ok c => exact s.journal_render t (.stability c)
  | resources =>
    rw [renderChart, renderKind, renderResources, figure]
    cases openLog t s.resourceLog with
    | error e => cases e <;> rfl
    | ok rows =>
      exact congrArg (s.loadingEvent rows.length :: ·) (s.journal_render t (.resources ⟨rows⟩))

section

variable {s} {t : FileTree} {kind : ChartKind}

theorem figure_eq_data_iff : (∃ f, s.figure t kind = .ok (some f)) ↔ s.HasData t kind := by
  refine ⟨fun h => ?_, exists_figure_of_hasData⟩
  obtain ⟨f, hf⟩ := h
  rcases s.hasData_or_noLog_or_dataFault t kind with hdata | hnone | ⟨e, hfault⟩
  · exact hdata
  · rw [figure_of_noLog hnone] at hf
    cases hf
  · rw [figure_of_dataFault hfault] at hf
    cases hf

/-- Without data nothing is reported before the outcome. -/
theorem workOf_of_not_hasData (h : ¬s.HasData t kind) : s.workOf kind (s.figure t kind) = [] := by
  cases hf : s.figure t kind with
  | error e => rfl
  | ok found =>
    cases found with
    | none => rfl
    | some f => exact absurd (figure_eq_data_iff.mp ⟨f, hf⟩) h

theorem hasData_of_goodLog {samples : List Sample} (h : GoodLog t s.resourceLog samples) :
    s.HasData t .resources :=
  ⟨samples, h⟩

/-- Samples are reported of the resource chart, and their number is that of the rows. -/
theorem loadingOf_eq_some_iff {f : Figure} (h : s.figure t kind = .ok (some f)) (e : Event) :
    s.loadingOf f = some e ↔ kind = .resources ∧
      ∃ samples, GoodLog t s.resourceLog samples ∧ e = s.loadingEvent samples.length := by
  have hkind := kind_of_figure h
  cases f with
  | latency c | stability c =>
    refine iff_of_false nofun fun hlog => ?_
    rw [hlog.1] at hkind
    cases hkind
  | resources c =>
    subst hkind
    have hopen : openLog t s.resourceLog = .ok c.samples := by
      have hfigure : s.logFigure (openLog t s.resourceLog) = .ok (some (.resources c)) := h
      cases hlog : openLog t s.resourceLog with
      | error e =>
        rw [hlog] at hfigure
        cases e <;> cases hfigure
      | ok rows =>
        rw [hlog] at hfigure
        cases hfigure
        rfl
    constructor
    · intro he
      exact ⟨rfl, c.samples, openLog_eq_ok_iff.mp hopen, (Option.some.inj he).symm⟩
    · intro hlog
      obtain ⟨_, samples, hgood, rfl⟩ := hlog
      have hsame : c.samples = samples :=
        Except.ok.inj (hopen.symm.trans (openLog_of_goodLog hgood))
      rw [← hsame]
      rfl

end

/-- Every attempt reports what it has read, what it is about to write, and its outcome. -/
theorem reports_renderChart (t : FileTree) (kind : ChartKind) :
    ∃ loading drawing,
      s.Reports t (s.renderChart t kind) loading drawing
        ((s.renderChart t kind).outcome.map (·.event kind)) := by
  have hjournal : (s.renderChart t kind).journal = s.workOf kind (s.figure t kind)
      ++ ((s.renderChart t kind).outcome.map (·.event kind)).toList := by
    rw [← work_renderChart]
    rfl
  have hnone : (s.renderChart t kind).outcome = none ↔ ¬s.DrawingEnds t kind := outcome_eq_none_iff
  have htold : (s.renderChart t kind).outcome.map (·.event kind) = none
      ↔ ¬s.DrawingEnds t kind := Option.map_eq_none_iff.trans hnone
  have htelling : ∀ {o : Outcome}, (s.renderChart t kind).outcome = some o →
      (s.renderChart t kind).outcome.map (·.event kind) = some (o.event kind) :=
    fun ho => by rw [ho, Option.map_some]
  have hskipped : ∀ log, (s.renderChart t kind).outcome = some (.skipped log) →
      log = s.resourceLog ∧ (s.renderChart t kind).outcome.map (·.event kind)
        = some ((Outcome.skipped log).event kind) :=
    fun log h => ⟨(outcome_eq_skipped_iff.mp h).2.2, htelling h⟩
  by_cases hdata : s.HasData t kind
  · obtain ⟨f, hf⟩ := exists_figure_of_hasData hdata
    refine ⟨s.loadingOf f, some (s.drawingEvent kind), ?_, loadingOf_eq_some_iff hf, ?_, htold,
      hnone, fun _ h => htelling h, hskipped, fun _ h => ⟨htelling h, rfl⟩⟩
    · rw [hjournal, hf]
      rfl
    · intro e
      rw [Option.some_inj, eq_comm]
      exact ⟨fun he => ⟨hdata, he⟩, And.right⟩
  · refine ⟨none, none, ?_, ?_, ?_, htold, hnone, fun _ h => htelling h, hskipped,
      fun _ h => ⟨htelling h, rfl⟩⟩
    · rw [hjournal, workOf_of_not_hasData hdata]
      rfl
    · refine fun e => iff_of_false nofun fun hlog => ?_
      obtain ⟨hkind, samples, hgood, _⟩ := hlog
      have hresources : kind = .resources := hkind
      rw [hresources] at hdata
      exact hdata (hasData_of_goodLog hgood)
    · exact fun e => iff_of_false nofun fun h => hdata h.1

/-- On the way to an outcome nothing is said above the level `debug`. -/
theorem level_of_mem_workOf {kind : ChartKind} {found : Except ReportError (Option Figure)}
    {e : Event} (h : e ∈ s.workOf kind found) : e.level = .debug := by
  cases found with
  | error x => cases h
  | ok found =>
    cases found with
    | none => cases h
    | some f =>
      rcases List.mem_append.mp h with h | h
      · cases f with
        | latency c | stability c => cases h
        | resources c => rw [List.mem_singleton.mp h, loadingEvent]
      · rw [List.mem_singleton.mp h, drawingEvent]

theorem level_of_mem_work {t : FileTree} {kind : ChartKind} {e : Event}
    (h : e ∈ (s.renderChart t kind).work) : e.level = .debug := by
  rw [work_renderChart] at h
  exact s.level_of_mem_workOf h

/-! ## The events of a run -/

/-- The attempts that a run comes to.  A sink without a limit stops none of them. -/
def attemptsInto (t : FileTree) (sink : Sink) : List Attempted :=
  match sink.capacity with
  | none => s.attempts t ChartKind.all
  | some capacity => reached (capacity - sink.written.length) (s.attempts t ChartKind.all)

/-- The charts that a run into a sink comes to whose first two charts have these outcomes. -/
def kindsInto (sink : Sink) (first second : Outcome) : List ChartKind :=
  match sink.capacity with
  | none => ChartKind.all
  | some capacity => kindsReached (capacity - sink.written.length)
      (first.line .latency).length (second.line .stability).length

theorem attemptsInto_isPrefix (t : FileTree) (sink : Sink) :
    s.attemptsInto t sink <+: s.attempts t ChartKind.all := by
  unfold attemptsInto
  cases sink.capacity with
  | none => exact List.prefix_refl _
  | some capacity => exact reached_isPrefix _ _

/-- A run reports the warning about its scenarios and the attempts that it comes to.  If it
ends well these are the attempts at all charts, and the summary has their outcomes. -/
theorem journal_run (t : FileTree) (sink : Sink) :
    let r := s.run t sink
    let attempted := s.attemptsInto t sink
    r.journal = s.warnings ++ attempted.flatMap Attempted.journal ∧
    ∀ summary, r.result = some (.ok summary) → attempted = s.attempts t ChartKind.all ∧
      outcomesOf [] attempted = some summary.outcomes := by
  obtain ⟨w, capacity, full, flushError⟩ := sink
  cases capacity with
  | some capacity =>
    obtain ⟨-, hresult, hjournal, -⟩ :=
      s.runFrom_of_capacity full flushError capacity (s.attempts t ChartKind.all) t w s.warnings []
    refine ⟨hjournal, fun summary hok => ?_⟩
    obtain ⟨hfits, -, houtcomes⟩ := ending_eq_ok_iff.mp (hresult.symm.trans hok)
    have hall : reached (capacity - w.length) (s.attempts t ChartKind.all)
        = s.attempts t ChartKind.all := reached_of_le hfits
    exact ⟨hall, (congrArg (outcomesOf []) hall).trans houtcomes⟩
  | none =>
    obtain ⟨hresult, -, hjournal, -⟩ := s.run_of_unlimited t w full flushError
    refine ⟨hjournal, fun summary hok => ⟨rfl, ?_⟩⟩
    obtain ⟨outcomes, houtcomes, hsummary⟩ := Option.map_eq_some_iff.mp (hresult.symm.trans hok)
    cases flushError with
    | none =>
      rw [← Except.ok.inj hsummary]
      exact houtcomes
    | some e => cases hsummary

/-- Which charts a run comes to, if the first two have outcomes. -/
theorem map_kind_attemptsInto {t : FileTree} {sink : Sink} {first second : Outcome}
    (hfirst : (s.renderChart t .latency).outcome = some first)
    (hsecond : (s.renderChart (s.renderChart t .latency).files .stability).outcome
      = some second) :
    (s.attemptsInto t sink).map (·.kind) = kindsInto sink first second := by
  unfold attemptsInto kindsInto
  cases sink.capacity with
  | some capacity => exact kinds_reached hfirst hsecond _
  | none =>
    obtain ⟨more, hmore, hkinds⟩ : ∃ more : List Attempted,
        s.attempts (s.renderChart (s.renderChart t .latency).files .stability).files [.resources]
          = more ∧ more.map (·.kind) = [.resources] := by
      refine ⟨_, rfl, ?_⟩
      rw [attempts, attempts, ite_self]
      rfl
    rw [ChartKind.all, attempts_cons_of_some hfirst, attempts_cons_of_some hsecond, hmore,
      List.map_cons, List.map_cons, hkinds]
    rfl

theorem mem_attempts {t : FileTree} {kinds : List ChartKind} {a : Attempted}
    (h : a ∈ s.attempts t kinds) : ∃ u, a = s.renderChart u a.kind := by
  induction kinds generalizing t with
  | nil => cases h
  | cons kind rest ih =>
    cases ho : (s.renderChart t kind).outcome with
    | none =>
      rw [attempts_cons_of_none ho] at h
      rw [List.mem_singleton.mp h]
      exact ⟨t, rfl⟩
    | some o =>
      rw [attempts_cons_of_some ho] at h
      rcases List.mem_cons.mp h with rfl | h
      · exact ⟨t, rfl⟩
      · exact ih h

/-- The events of a level above `debug` are those about the outcomes of a kind. -/
theorem countP_flatMap_journal {level : Level} (hlevel : level ≠ .debug) (p : Outcome → Bool)
    (hp : ∀ o kind, (Outcome.event kind o).level = level ↔ p o = true)
    {attempted : List Attempted} (hwork : ∀ a ∈ attempted, ∀ e ∈ a.work, e.level = .debug)
    {outcomes : List (ChartKind × Outcome)}
    (houtcomes : attempted.map (fun a => (a.kind, a.outcome))
      = outcomes.map fun o => (o.1, some o.2)) :
    (attempted.flatMap Attempted.journal).countP (·.level = level)
      = outcomes.countP (fun o => p o.2) := by
  induction attempted generalizing outcomes with
  | nil =>
    obtain rfl := List.map_eq_nil_iff.mp houtcomes.symm
    rfl
  | cons a rest ih =>
    obtain ⟨⟨kind, o⟩, outcomes, rfl, hfirst, hrest⟩ := List.map_eq_cons_iff.mp houtcomes.symm
    obtain ⟨rfl, ho⟩ := Prod.mk.inj hfirst
    have hnone : a.work.countP (·.level = level) = 0 := by
      rw [List.countP_eq_zero]
      intro e he
      rw [hwork a List.mem_cons_self e he, decide_eq_true_eq]
      exact hlevel.symm
    have hcount := ih (fun b hb => hwork b (List.mem_cons_of_mem a hb)) hrest.symm
    rw [List.flatMap_cons, List.countP_append, hcount, Attempted.journal, List.countP_append,
      hnone, ← ho]
    simp only [Option.map_some, Option.toList_some, List.countP_cons, List.countP_nil,
      decide_eq_true_eq, hp o a.kind]
    omega

/-- The warning about the scenarios is the only event of its own level there. -/
theorem countP_warnings (level : Level) : s.warnings.countP (·.level = level)
    = if s.scenarios.validate.isOk || level ≠ .warn then 0 else 1 := by
  unfold warnings
  cases s.scenarios.validate with
  | ok => rfl
  | error e => cases level <;> rfl

/-- A warning about the scenarios is reported if and only if they do not fit together. -/
theorem exists_warnings_eq : ∃ warning : Option Event, s.warnings = warning.toList ∧
    ∀ e, warning = some e ↔ ∃ fault, s.scenarios.validate = .error fault ∧
      e = ⟨.warn, .report, s!"invalid scenarios: {fault.message}"⟩ := by
  unfold warnings
  cases s.scenarios.validate with
  | ok => exact ⟨none, rfl, by simp⟩
  | error fault => exact ⟨some _, rfl, by simp [eq_comm]⟩

theorem hasData_iff_outcome {t : FileTree} {kind : ChartKind} : s.HasData t kind ↔
    (∃ path, (s.renderChart t kind).outcome = some (.rendered path)) ∨
      (∃ e, (s.renderChart t kind).outcome = some (.failed (.chart e))) ∨
      (s.renderChart t kind).outcome = none := by
  constructor
  · intro hdata
    rcases hdata.stays_or_exists_imageFault_or_canWrite with
      hstays | ⟨e, hfault⟩ | ⟨hformat, hends, hplace⟩
    · exact .inr (.inr (outcome_eq_none_iff.mpr hstays))
    · exact .inr (.inl ⟨e, outcome_of_imageFault hdata hfault⟩)
    · exact .inl ⟨_, outcome_of_canWrite hdata hformat hends hplace⟩
  · intro h
    rcases h with ⟨path, hpath⟩ | ⟨e, he⟩ | hnone
    · exact (outcome_eq_rendered_iff.mp hpath).1
    · exact (outcome_eq_chart_iff.mp he).1
    · cases outcome_eq_iff_decided.mp hnone with
      | stays hdata _ => exact hdata

/-- What the journal of a run tells about its outcomes.

First it warns of scenarios that do not fit together, if they do not.  Then follow the
attempts that the run comes to, in order; a sink that refuses a line cuts the run off
behind the attempt of that line, and so does a chart that is drawn for ever.  Every attempt
reports the samples that it has read, if there is a log and its rows are good, then the image
that it is about to write, if its chart has data, and last its outcome, unless its chart has an
axis whose span is not finite.  The image is also reported of a chart that then fails, for its
format or for the place of its file.

A run that ends well has as many events of the level `info` as images, as many of the level
`error` as failures, and as many of the level `warn` as skipped charts, and one more if the
scenarios do not fit together.  Charts that are rendered without an outcome being told
report at the level `debug` only. -/
theorem journal_tells_outcomes (t : FileTree) (sink : Sink) :
    let r := s.run t sink
    let attempted := s.attemptsInto t sink
    (∃ warning : Option Event,
      r.journal = warning.toList ++ attempted.flatMap Attempted.journal ∧
      ∀ e, warning = some e ↔ ∃ fault, s.scenarios.validate = .error fault ∧
        e = ⟨.warn, .report, s!"invalid scenarios: {fault.message}"⟩) ∧
    attempted <+: s.attempts t ChartKind.all ∧
    (∀ first second, (s.renderChart t .latency).outcome = some first →
      (s.renderChart (s.renderChart t .latency).files .stability).outcome = some second →
      attempted.map (·.kind) = kindsInto sink first second) ∧
    (∀ a ∈ attempted, ∃ u loading drawing telling,
      a = s.renderChart u a.kind ∧ s.Reports u a loading drawing telling) ∧
    (∀ u kind, ∃ loading drawing telling,
      s.Reports u (s.renderChart u kind) loading drawing telling) ∧
    (∀ u kind, s.HasData u kind ↔
      (∃ path, (s.renderChart u kind).outcome = some (.rendered path)) ∨
        (∃ e, (s.renderChart u kind).outcome = some (.failed (.chart e))) ∨
        (s.renderChart u kind).outcome = none) ∧
    (∀ summary, r.result = some (.ok summary) →
      attempted.map (·.kind) = [.latency, .stability, .resources] ∧
      attempted.map (fun a => (a.kind, a.outcome))
        = summary.outcomes.map (fun o => (o.1, some o.2)) ∧
      r.journal.countP (·.level = .info) = summary.rendered ∧
      r.journal.countP (·.level = .error) = summary.outcomes.countP (·.2.isFailed) ∧
      r.journal.countP (·.level = .warn) = summary.outcomes.countP (·.2.isSkipped)
        + if s.scenarios.validate.isOk then 0 else 1) ∧
    ∀ u, ∀ e ∈ (s.renderLatency u).journal ++ (s.renderStability u).journal
      ++ (s.renderResources u).journal, e.level = .debug := by
  intro r attempted
  obtain ⟨warning, hwarning, hfault⟩ := s.exists_warnings_eq
  obtain ⟨hjournal, hok⟩ := s.journal_run t sink
  have hprefix := s.attemptsInto_isPrefix t sink
  have hmem : ∀ a ∈ attempted, ∃ u, a = s.renderChart u a.kind :=
    fun a ha => s.mem_attempts ((List.IsPrefix.subset hprefix) ha)
  have hwork : ∀ a ∈ attempted, ∀ e ∈ a.work, e.level = .debug := by
    intro a ha e he
    obtain ⟨u, hu⟩ := hmem a ha
    rw [hu] at he
    exact s.level_of_mem_work he
  refine ⟨⟨warning, hwarning ▸ hjournal, hfault⟩, hprefix,
    fun _ _ hfirst hsecond => s.map_kind_attemptsInto hfirst hsecond, ?_, ?_,
    fun u kind => s.hasData_iff_outcome, ?_, ?_⟩
  · intro a ha
    obtain ⟨u, hu⟩ := hmem a ha
    obtain ⟨loading, drawing, hreports⟩ := s.reports_renderChart u a.kind
    rw [← hu] at hreports
    exact ⟨u, loading, drawing, _, hu, hreports⟩
  · intro u kind
    obtain ⟨loading, drawing, hreports⟩ := s.reports_renderChart u kind
    exact ⟨loading, drawing, _, hreports⟩
  · intro summary hsummary
    obtain ⟨hall, houtcomes⟩ := hok summary hsummary
    have hends : s.DrawingsEnd t ChartKind.all := by
      rw [← outcomesOf_attempts_ne_none_iff, ← hall, houtcomes]
      exact Option.some_ne_none _
    obtain ⟨_, hsame, hmap⟩ := exists_of_outcomesOf houtcomes
    rw [List.nil_append] at hsame
    rw [← hsame] at hmap
    have hcount : ∀ {level : Level} (p : Outcome → Bool), level ≠ .debug →
        (∀ o kind, (Outcome.event kind o).level = level ↔ p o = true) →
        r.journal.countP (·.level = level) = summary.outcomes.countP (fun o => p o.2)
          + if s.scenarios.validate.isOk || level ≠ .warn then 0 else 1 := by
      intro level p hlevel hp
      rw [← countP_flatMap_journal hlevel p hp hwork hmap, ← s.countP_warnings level,
        Nat.add_comm, ← List.countP_append]
      exact congrArg (List.countP _) hjournal
    refine ⟨(congrArg (List.map (·.kind)) hall).trans (map_kind_attempts hends), hmap, ?_, ?_, ?_⟩
    · have hinfo := hcount Outcome.isRendered (by decide) fun o => o.level_event_eq_info_iff
      rw [Summary.rendered]
      simpa using hinfo
    · have herror := hcount Outcome.isFailed (by decide) fun o => o.level_event_eq_error_iff
      simpa using herror
    · have hwarn := hcount Outcome.isSkipped (by decide) fun o => o.level_event_eq_warn_iff
      simpa using hwarn
  · intro u e he
    have hdebug : ∀ kind, e ∈ (s.renderChart u kind).work → e.level = .debug :=
      fun kind he => s.level_of_mem_work he
    rcases List.mem_append.mp he with he | he
    · rcases List.mem_append.mp he with he | he
      · exact hdebug .latency he
      · exact hdebug .stability he
    · exact hdebug .resources he

/-- The attempt at a chart that is drawn for ever tells nothing of an outcome. -/
theorem exists_attempt_without_telling :
    let a := standard.renderChart (logOnly unboundedLoad) .resources
    a.outcome = none ∧ a.journal = [standard.loadingEvent 1, standard.drawingEvent .resources] := by
  intro a
  have hnone : a.outcome = none := outcome_eq_none_iff.mpr not_drawingEnds_unboundedLoad
  refine ⟨hnone, ?_⟩
  have hwork := standard.work_renderChart (logOnly unboundedLoad) .resources
  rw [figure_logOnly decode_unboundedLoad] at hwork
  rw [Attempted.journal, hnone]
  exact congrArg (· ++ []) hwork

end Settings

end BenchCharts
