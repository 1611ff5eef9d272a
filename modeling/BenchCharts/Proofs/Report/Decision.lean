import BenchCharts.Proofs.Report.Isolation

/-!
# What decides the outcome of a chart

An attempt at a chart first needs data and then writes their image.  Each stage can fail
for reasons of its own, and the first that fails decides.

* The data.  `DataFault` lists what can be wrong with them: the series of the scenarios do not
  fit their labels, or something is wrong with a log that exists.  `HasData` says that neither
  is the case.
* The drawing.  It ends if the spans of all axes are finite (`DrawingEnds`); if not, there is
  no outcome at all.
* The image.  `ImageFault` lists what can be wrong then: the format, and next the place
  where the file is to be written.

`figure_of_dataFault`, `exists_figure_of_hasData` and `writeImage_eq_error_iff` tie the lists
to the stages, and `outcome_eq_iff_decided` puts the stages in their order.
-/

namespace BenchCharts

open FileTree

/-- A file can be created or overwritten under the path. -/
def FileTree.CanWrite (t : FileTree) (path : String) : Prop :=
  ∃ l, t.LeadsTo path l ∧ t.FileOrNothing l

theorem FileTree.exists_target_eq_error_iff {t : FileTree} {path : String} :
    (∃ e, t.target path = .error e) ↔ ¬t.CanWrite path := by
  simp only [CanWrite, ← target_eq_ok_iff]
  cases t.target path <;> simp

open ResourceLog

/-! ## The data of a chart -/

/-- The series that the chart of a kind draws over the scenarios. -/
def Scenarios.seriesOf (x : Scenarios) : ChartKind → List Series
  | .latency => [x.averageSeries, x.p95Series]
  | .stability => [x.throughputSeries, x.errorSeries]
  | .resources => []

namespace Settings

/-- Why a chart has no data to draw. -/
inductive DataFault (s : Settings) (t : FileTree) : ChartKind → ReportError → Prop where
  | shape {kind : ChartKind} {e : ShapeError} : kind ≠ .resources →
      checkShape s.scenarios.labels (s.scenarios.seriesOf kind) = .error e →
      DataFault s t kind (.invalidScenarios e)
  | log {e : OpenError} : LogFault t s.resourceLog e →
      DataFault s t .resources (.resourceLog s.resourceLog e)

/-- A chart has data to draw: its series fit the labels, or its log is good. -/
def HasData (s : Settings) (t : FileTree) (kind : ChartKind) : Prop :=
  if kind = .resources then ∃ samples, GoodLog t s.resourceLog samples
  else checkShape s.scenarios.labels (s.scenarios.seriesOf kind) = .ok ()

/-- There is no log to chart. -/
def NoLog (s : Settings) (t : FileTree) (kind : ChartKind) : Prop :=
  kind = .resources ∧ t.contains s.resourceLog = false

section

variable {s : Settings} {t : FileTree} {kind : ChartKind}

theorem figure_of_noLog (h : s.NoLog t kind) : s.figure t kind = .ok none := by
  obtain ⟨rfl, hcontains⟩ := h
  rw [figure, openLog, hcontains]
  rfl

/-- The charts over the scenarios have data if the check of their shape passes. -/
theorem exists_figure_eq_checkShape (s : Settings) (t : FileTree) (hkind : kind ≠ .resources) :
    ∃ f, s.figure t kind
      = ((checkShape s.scenarios.labels (s.scenarios.seriesOf kind)).mapError
          .invalidScenarios).map fun _ => some f := by
  cases kind with
  | latency =>
    refine ⟨.latency ⟨s.scenarios.labels, s.scenarios.averageLatency, s.scenarios.p95Latency⟩, ?_⟩
    rw [figure, LatencyChart.ofScenarios, Scenarios.seriesOf]
    cases checkShape s.scenarios.labels [s.scenarios.averageSeries, s.scenarios.p95Series] <;> rfl
  | stability =>
    refine ⟨.stability ⟨s.scenarios.labels, s.scenarios.throughput, s.scenarios.errorRate⟩, ?_⟩
    rw [figure, StabilityChart.ofScenarios, Scenarios.seriesOf]
    cases checkShape s.scenarios.labels [s.scenarios.throughputSeries, s.scenarios.errorSeries] <;>
      rfl
  | resources => exact absurd rfl hkind

theorem figure_of_dataFault {e : ReportError} (h : s.DataFault t kind e) :
    s.figure t kind = .error e := by
  cases h with
  | shape hkind hshape =>
    obtain ⟨f, hf⟩ := s.exists_figure_eq_checkShape t hkind
    rw [hf, hshape]
    rfl
  | log hlog =>
    rw [figure, openLog_of_logFault hlog]
    cases hlog <;> rfl

theorem exists_figure_of_hasData (h : s.HasData t kind) :
    ∃ f, s.figure t kind = .ok (some f) := by
  unfold HasData at h
  by_cases hkind : kind = .resources
  · rw [if_pos hkind] at h
    obtain ⟨samples, hlog⟩ := h
    refine ⟨.resources ⟨samples⟩, ?_⟩
    rw [hkind, figure, openLog_of_goodLog hlog]
    rfl
  · rw [if_neg hkind] at h
    obtain ⟨f, hf⟩ := s.exists_figure_eq_checkShape t hkind
    refine ⟨f, ?_⟩
    rw [hf, h]
    rfl

/-- Every chart has data, or there is no log to chart, or its data are at fault. -/
theorem hasData_or_noLog_or_dataFault (s : Settings) (t : FileTree) (kind : ChartKind) :
    s.HasData t kind ∨ s.NoLog t kind ∨ ∃ e, s.DataFault t kind e := by
  by_cases hkind : kind = .resources
  · subst hkind
    cases hopen : openLog t s.resourceLog with
    | ok samples => exact Or.inl ⟨samples, openLog_eq_ok_iff.mp hopen⟩
    | error e =>
      rcases openLog_eq_error_iff.mp hopen with ⟨hcontains, _⟩ | hfault
      · exact Or.inr (Or.inl ⟨rfl, hcontains⟩)
      · exact Or.inr (Or.inr ⟨_, .log hfault⟩)
  · cases hshape : checkShape s.scenarios.labels (s.scenarios.seriesOf kind) with
    | ok =>
      left
      rw [HasData, if_neg hkind]
      exact hshape
    | error e => exact Or.inr (Or.inr ⟨_, .shape hkind hshape⟩)

/-! ## The image of a chart -/

/-- Why the image of a chart that has data is not written.  A place is looked for behind the
drawing. -/
inductive ImageFault (s : Settings) (t : FileTree) (kind : ChartKind) : ChartError → Prop where
  | format : s.format = .png → ImageFault s t kind (.unsupportedFormat .png)
  | place {e : SystemError} : s.format = .svg → s.DrawingEnds t kind →
      t.target (s.pathOf kind) = .error e → ImageFault s t kind (.draw (.output e))

theorem drawingEnds_iff_of_figure {f : Figure} (hf : s.figure t kind = .ok (some f))
    (hformat : s.format = .svg) : s.DrawingEnds t kind ↔ f.chart.FiniteSpans := by
  constructor
  · exact fun h => h hformat f hf
  · intro h _ g hg
    obtain rfl := Option.some.inj (Except.ok.inj (hf.symm.trans hg))
    exact h

section

variable {f : Figure} (hf : s.figure t kind = .ok (some f))

include hf

theorem writeImage_eq_none_iff_of_figure :
    s.writeImage t f.chart = none ↔ ¬s.DrawingEnds t kind := by
  rw [writeImage_eq_none_iff]
  constructor
  · exact fun ⟨hformat, hends⟩ h => hends (h hformat f hf)
  · intro h
    cases hformat : s.format with
    | png => exact absurd (fun hsvg => by rw [hformat] at hsvg; cases hsvg) h
    | svg => exact ⟨rfl, fun hends => h ((drawingEnds_iff_of_figure hf hformat).mpr hends)⟩

theorem writeImage_eq_error_iff {e : ChartError} :
    s.writeImage t f.chart = some (.error e) ↔ s.ImageFault t kind e := by
  rw [writeImage_chart, imagePath_chart, kind_of_figure hf]
  constructor
  · intro h
    cases hformat : s.format with
    | png =>
      rw [hformat] at h
      rw [← Except.error.inj (Option.some.inj h)]
      exact .format hformat
    | svg =>
      by_cases hends : f.chart.FiniteSpans
      · simp only [hformat, if_pos hends, Option.some.injEq, Except.mapError_eq_error_iff, replace,
          Except.map_eq_error_iff] at h
        obtain ⟨e, hplace, rfl⟩ := h
        exact .place hformat ((drawingEnds_iff_of_figure hf hformat).mpr hends) hplace
      · simp only [hformat, if_neg hends, reduceCtorEq] at h
  · intro h
    cases h with
    | format hformat => rw [hformat]
    | place hformat hends hplace =>
      simp only [hformat, if_pos (hends hformat f hf), Option.some.injEq,
        Except.mapError_eq_error_iff, replace, Except.map_eq_error_iff]
      exact ⟨_, hplace, rfl⟩

theorem writeImage_eq_ok_iff_canWrite :
    (∃ u, s.writeImage t f.chart = some (.ok u))
      ↔ s.format = .svg ∧ s.DrawingEnds t kind ∧ t.CanWrite (s.pathOf kind) := by
  constructor
  · intro h
    obtain ⟨u, h⟩ := h
    obtain ⟨hformat, hends, l, hl, _⟩ := writeImage_eq_ok_iff.mp h
    rw [imagePath_chart, kind_of_figure hf, target_eq_ok_iff] at hl
    exact ⟨hformat, (drawingEnds_iff_of_figure hf hformat).mpr hends, l, hl⟩
  · intro h
    obtain ⟨hformat, hends, l, hl⟩ := h
    refine ⟨_, writeImage_eq_ok_iff.mpr ⟨hformat, hends hformat f hf, l, ?_,
      replacedAt_set _ hl.2⟩⟩
    rw [imagePath_chart, kind_of_figure hf, target_eq_ok_iff]
    exact hl

end

/-- The image of a chart that has data is drawn for ever, or something is wrong with it, or it
is written. -/
theorem HasData.stays_or_exists_imageFault_or_canWrite (h : s.HasData t kind) :
    ¬s.DrawingEnds t kind ∨ (∃ e, s.ImageFault t kind e) ∨
      s.format = .svg ∧ s.DrawingEnds t kind ∧ t.CanWrite (s.pathOf kind) := by
  obtain ⟨f, hf⟩ := exists_figure_of_hasData h
  rcases hw : s.writeImage t f.chart with _ | e | u
  · exact Or.inl ((writeImage_eq_none_iff_of_figure hf).mp hw)
  · exact Or.inr (Or.inl ⟨e, (writeImage_eq_error_iff hf).mp hw⟩)
  · exact Or.inr (Or.inr ((writeImage_eq_ok_iff_canWrite hf).mp ⟨u, hw⟩))

/-! ## Outcomes -/

theorem outcome_of_noLog (h : s.NoLog t kind) :
    (s.renderChart t kind).outcome = some (.skipped s.resourceLog) := by
  rw [outcome_eq_settle, figure_of_noLog h]
  rfl

theorem outcome_of_dataFault {e : ReportError} (h : s.DataFault t kind e) :
    (s.renderChart t kind).outcome = some (.failed e) := by
  rw [outcome_eq_settle, figure_of_dataFault h]
  rfl

theorem outcome_of_imageFault {e : ChartError} (hdata : s.HasData t kind)
    (h : s.ImageFault t kind e) : (s.renderChart t kind).outcome = some (.failed (.chart e)) := by
  obtain ⟨f, hf⟩ := exists_figure_of_hasData hdata
  rw [← writeImage_eq_error_iff hf] at h
  rw [outcome_eq_settle, hf, settle, h]

theorem outcome_of_canWrite (hdata : s.HasData t kind) (hformat : s.format = .svg)
    (hends : s.DrawingEnds t kind) (h : t.CanWrite (s.pathOf kind)) :
    (s.renderChart t kind).outcome = some (.rendered (s.pathOf kind)) := by
  obtain ⟨f, hf⟩ := exists_figure_of_hasData hdata
  obtain ⟨u, hu⟩ := (writeImage_eq_ok_iff_canWrite hf).mpr ⟨hformat, hends, h⟩
  rw [outcome_eq_settle, hf, settle, hu, imagePath_chart, kind_of_figure hf]

/-- What an attempt can come to.  Of the five lines one holds. -/
inductive Decided (s : Settings) (t : FileTree) (kind : ChartKind) : Option Outcome → Prop where
  | noLog : s.NoLog t kind → Decided s t kind (some (.skipped s.resourceLog))
  | dataFault {e : ReportError} : s.DataFault t kind e → Decided s t kind (some (.failed e))
  | stays : s.HasData t kind → ¬s.DrawingEnds t kind → Decided s t kind none
  | imageFault {e : ChartError} : s.HasData t kind → s.ImageFault t kind e →
      Decided s t kind (some (.failed (.chart e)))
  | rendered : s.HasData t kind → s.format = .svg → s.DrawingEnds t kind →
      t.CanWrite (s.pathOf kind) → Decided s t kind (some (.rendered (s.pathOf kind)))

theorem exists_decided (s : Settings) (t : FileTree) (kind : ChartKind) :
    ∃ o, s.Decided t kind o := by
  rcases s.hasData_or_noLog_or_dataFault t kind with hdata | hnone | ⟨e, hfault⟩
  · rcases hdata.stays_or_exists_imageFault_or_canWrite with
      hstays | ⟨e, hfault⟩ | ⟨hformat, hends, hplace⟩
    · exact ⟨_, .stays hdata hstays⟩
    · exact ⟨_, .imageFault hdata hfault⟩
    · exact ⟨_, .rendered hdata hformat hends hplace⟩
  · exact ⟨_, .noLog hnone⟩
  · exact ⟨_, .dataFault hfault⟩

theorem outcome_eq_iff_decided {o : Option Outcome} :
    (s.renderChart t kind).outcome = o ↔ s.Decided t kind o := by
  have hof : ∀ {o}, s.Decided t kind o → (s.renderChart t kind).outcome = o := by
    intro o h
    cases h with
    | noLog h => exact outcome_of_noLog h
    | dataFault h => exact outcome_of_dataFault h
    | stays _ h => exact outcome_eq_none_iff.mpr h
    | imageFault hdata h => exact outcome_of_imageFault hdata h
    | rendered hdata hformat hends h => exact outcome_of_canWrite hdata hformat hends h
  constructor
  · intro h
    obtain ⟨o', ho'⟩ := s.exists_decided t kind
    rwa [← h, hof ho']
  · exact hof

/-! ## Each outcome by what decides it -/

theorem outcome_eq_invalidScenarios_iff {e : ShapeError} :
    (s.renderChart t kind).outcome = some (.failed (.invalidScenarios e)) ↔ kind ≠ .resources ∧
      checkShape s.scenarios.labels (s.scenarios.seriesOf kind) = .error e := by
  rw [outcome_eq_iff_decided]
  constructor
  · intro h
    cases h with
    | dataFault h =>
      cases h with
      | shape hkind hshape => exact ⟨hkind, hshape⟩
  · intro h
    exact .dataFault (.shape h.1 h.2)

theorem outcome_eq_skipped_iff {path : String} :
    (s.renderChart t kind).outcome = some (.skipped path) ↔
      kind = .resources ∧ t.contains s.resourceLog = false ∧ path = s.resourceLog := by
  rw [outcome_eq_iff_decided]
  constructor
  · intro h
    cases h with
    | noLog h => exact ⟨h.1, h.2, rfl⟩
  · intro h
    obtain ⟨hkind, hcontains, rfl⟩ := h
    exact .noLog ⟨hkind, hcontains⟩

theorem outcome_eq_resourceLog_iff {path : String} {e : OpenError} :
    (s.renderChart t kind).outcome = some (.failed (.resourceLog path e)) ↔
      kind = .resources ∧ LogFault t s.resourceLog e ∧ path = s.resourceLog := by
  rw [outcome_eq_iff_decided]
  constructor
  · intro h
    cases h with
    | dataFault h =>
      cases h with
      | log hlog => exact ⟨rfl, hlog, rfl⟩
  · intro h
    obtain ⟨rfl, hlog, rfl⟩ := h
    exact .dataFault (.log hlog)

theorem outcome_eq_chart_iff {e : ChartError} :
    (s.renderChart t kind).outcome = some (.failed (.chart e)) ↔
      s.HasData t kind ∧ s.ImageFault t kind e := by
  rw [outcome_eq_iff_decided]
  constructor
  · intro h
    cases h with
    | dataFault h => cases h
    | imageFault hdata h => exact ⟨hdata, h⟩
  · intro h
    exact .imageFault h.1 h.2

theorem outcome_eq_rendered_iff {path : String} :
    (s.renderChart t kind).outcome = some (.rendered path) ↔
      s.HasData t kind ∧ s.format = .svg ∧ s.DrawingEnds t kind ∧ t.CanWrite (s.pathOf kind) ∧
        path = s.pathOf kind := by
  rw [outcome_eq_iff_decided]
  constructor
  · intro h
    cases h with
    | rendered hdata hformat hends hplace => exact ⟨hdata, hformat, hends, hplace, rfl⟩
  · intro h
    obtain ⟨hdata, hformat, hends, hplace, rfl⟩ := h
    exact .rendered hdata hformat hends hplace

/-- A chart has data if and only if its data do not decide the outcome. -/
theorem hasData_iff_outcome_ne :
    s.HasData t kind ↔
      (∀ e, (s.renderChart t kind).outcome ≠ some (.failed (.invalidScenarios e))) ∧
      (∀ path, (s.renderChart t kind).outcome ≠ some (.skipped path)) ∧
      ∀ path e, (s.renderChart t kind).outcome ≠ some (.failed (.resourceLog path e)) := by
  constructor
  · intro hdata
    rcases hdata.stays_or_exists_imageFault_or_canWrite with
      hstays | ⟨e, hfault⟩ | ⟨hformat, hends, hplace⟩
    · rw [outcome_eq_none_iff.mpr hstays]
      exact ⟨nofun, nofun, nofun⟩
    · rw [outcome_of_imageFault hdata hfault]
      exact ⟨nofun, nofun, nofun⟩
    · rw [outcome_of_canWrite hdata hformat hends hplace]
      exact ⟨nofun, nofun, nofun⟩
  · intro h
    obtain ⟨hshape, hskipped, hlog⟩ := h
    rcases s.hasData_or_noLog_or_dataFault t kind with hdata | hnone | ⟨e, hfault⟩
    · exact hdata
    · exact absurd (outcome_of_noLog hnone) (hskipped _)
    · have houtcome := outcome_of_dataFault hfault
      cases hfault with
      | shape => exact absurd houtcome (hshape _)
      | log => exact absurd houtcome (hlog _ _)

theorem imageFault_unsupportedFormat_iff {format : ImageFormat} :
    s.ImageFault t kind (.unsupportedFormat format) ↔ s.format = .png ∧ format = .png := by
  constructor
  · intro h
    cases h with
    | format hformat => exact ⟨hformat, rfl⟩
  · intro h
    obtain ⟨hformat, rfl⟩ := h
    exact .format hformat

theorem imageFault_draw_iff {reason : DrawFailure} :
    s.ImageFault t kind (.draw reason) ↔ s.format = .svg ∧ s.DrawingEnds t kind ∧
      ∃ e, t.target (s.pathOf kind) = .error e ∧ reason = .output e := by
  constructor
  · intro h
    cases h with
    | place hformat hends hplace => exact ⟨hformat, hends, _, hplace, rfl⟩
  · intro h
    obtain ⟨hformat, hends, e, hplace, rfl⟩ := h
    exact .place hformat hends hplace

end

/-- What decides the outcome of a chart whose axes have finite spans, stage by stage.

* There is an outcome, and it is that of one of the lines below.
* A chart over the scenarios fails with the error of the check of its own series if that
  check fails, whatever else is wrong.
* The resource chart is skipped if there is no log, and fails with what is wrong with the
  log if there is one that cannot be opened or not be read or has a bad row, whatever else
  is wrong.
* A chart has data if and only if neither is the case.  It then fails with the format if that
  is not supported.
* It fails with the place of the file if the format is supported and nothing can be
  written there.
* Otherwise the image is written. -/
theorem outcome_decided (s : Settings) (t : FileTree) (kind : ChartKind)
    (hends : s.DrawingEnds t kind) :
    let image := Path.join s.outputDir (kind.stem ++ "." ++ s.format.extension)
    ∃ o, (s.renderChart t kind).outcome = some o ∧
      (∀ e, o = .failed (.invalidScenarios e) ↔ kind ≠ .resources ∧
        checkShape s.scenarios.labels (s.scenarios.seriesOf kind) = .error e) ∧
      (∀ path, o = .skipped path ↔
        kind = .resources ∧ t.contains s.resourceLog = false ∧ path = s.resourceLog) ∧
      (∀ path e, o = .failed (.resourceLog path e) ↔
        kind = .resources ∧ LogFault t s.resourceLog e ∧ path = s.resourceLog) ∧
      ((∃ e, LogFault t s.resourceLog e) ↔ BadLog t s.resourceLog) ∧
      (s.HasData t kind ↔ (∀ e, o ≠ .failed (.invalidScenarios e)) ∧
        (∀ path, o ≠ .skipped path) ∧ ∀ path e, o ≠ .failed (.resourceLog path e)) ∧
      (∀ format, o = .failed (.chart (.unsupportedFormat format)) ↔
        s.HasData t kind ∧ s.format = .png ∧ format = .png) ∧
      (∀ reason, o = .failed (.chart (.draw reason)) ↔
        s.HasData t kind ∧ s.format = .svg ∧
          ∃ e, t.target image = .error e ∧ reason = .output e) ∧
      ((∃ e, t.target image = .error e) ↔ ¬t.CanWrite image) ∧
      (∀ path, o = .rendered path ↔
        s.HasData t kind ∧ s.format = .svg ∧ t.CanWrite image ∧ path = image) := by
  intro image
  obtain ⟨o, ho⟩ := exists_outcome_iff.mpr hends
  have heq : ∀ o', o = o' ↔ (s.renderChart t kind).outcome = some o' := by
    intro o'
    rw [ho, Option.some.injEq]
  refine ⟨o, ho, ?_⟩
  simp only [ne_eq, heq]
  refine ⟨fun e => outcome_eq_invalidScenarios_iff, fun path => outcome_eq_skipped_iff,
    fun path e => outcome_eq_resourceLog_iff, exists_logFault_iff, hasData_iff_outcome_ne,
    fun format => ?_, fun reason => ?_, exists_target_eq_error_iff, fun path => ?_⟩
  · exact outcome_eq_chart_iff.trans (and_congr_right fun _ => imageFault_unsupportedFormat_iff)
  · refine outcome_eq_chart_iff.trans (and_congr_right fun _ => imageFault_draw_iff.trans ?_)
    rw [and_iff_right hends]
    exact Iff.rfl
  · rw [outcome_eq_rendered_iff, and_iff_right hends]
    exact Iff.rfl

/-- A log with one sample and room for an image next to it. -/
theorem outcome_decided_oneSample :
    standard.DrawingEnds (logOnly oneSample) .resources ∧
      (standard.renderChart (logOnly oneSample) .resources).outcome
        = some (.rendered "./Chart3_Resources.svg") := by
  have hlookup : (logOnly oneSample).lookup standard.resourceLog
      = .ok (.file (Text.Utf8.encode oneSample)) := rfl
  have hopen := openLog_of_file_at_once hlookup
  rw [decode_oneSample] at hopen
  have hdata : standard.HasData (logOnly oneSample) .resources := ⟨_, openLog_eq_ok_iff.mp hopen⟩
  have htarget : (logOnly oneSample).target "./Chart3_Resources.svg"
      = .ok ["Chart3_Resources.svg"] := rfl
  obtain ⟨o, ho, -, -, -, -, -, -, -, -, hrendered⟩ :=
    outcome_decided standard (logOnly oneSample) .resources drawingEnds_oneSample
  refine ⟨drawingEnds_oneSample, ?_⟩
  rw [ho, (hrendered "./Chart3_Resources.svg").mpr
    ⟨hdata, rfl, ⟨_, target_eq_ok_iff.mp htarget⟩, rfl⟩]

/-- Finite bounds do not make an attempt come to an outcome. -/
theorem exists_outcome_eq_none :
    let t := logOnly farApart
    (∃ f, standard.figure t .resources = .ok (some f) ∧ ∀ range ∈ f.chart.ranges,
      range.start.isFinite = true ∧ range.stop.isFinite = true) ∧
    (standard.renderChart t .resources).outcome = none := by
  intro t
  have hfigure := figure_logOnly decode_farApart
  exact ⟨⟨_, hfigure, isFinite_bounds_farApart hfigure⟩,
    outcome_eq_none_iff.mpr not_drawingEnds_farApart⟩

end Settings

end BenchCharts
