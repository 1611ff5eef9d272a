import BenchCharts.Proofs.Chart.Ending
import BenchCharts.Proofs.FileTree.Replace
import BenchCharts.Proofs.Scenarios
import BenchCharts.Report.Render

/-!
# What rendering a chart does to the files

An attempt at a chart goes through two stages.  `Settings.figure` collects the
data that are drawn, or finds out that there is nothing to draw; it reads the
files and leaves them as they are.  `Settings.settle` writes the image of these
data.  `renderChart_eq_settle` splits all three charts in this way, and what
follows is about the second stage alone.

The result is a frame: an attempt changes the files only if it answers `rendered`,
and then only the file under the answered path, whose new bytes depend on the data
of that chart and on nothing else.

An attempt answers unless it draws an axis without a finite span for ever
(`isSome_outcome_iff`).
-/

namespace BenchCharts

open FileTree

/-! ## The data of a chart -/

/-- The name of a chart's image file without its ending. -/
def ChartKind.stem : ChartKind → String
  | latency => LatencyChart.stem
  | stability => StabilityChart.stem
  | resources => ResourceChart.stem

/-- The data that one of the charts draws. -/
inductive Figure where
  | latency (c : LatencyChart)
  | stability (c : StabilityChart)
  | resources (c : ResourceChart)

namespace Figure

def kind : Figure → ChartKind
  | latency _ => .latency
  | stability _ => .stability
  | resources _ => .resources

def chart : Figure → Chart
  | latency c => c.chart
  | stability c => c.chart
  | resources c => c.chart

/-- The bytes of the image.  No proof computes them. -/
@[irreducible]
def content (f : Figure) : List UInt8 :=
  Settings.imageBytes f.chart

theorem stem_chart (f : Figure) : f.chart.stem = f.kind.stem := by
  cases f <;> rfl

/-- In its own size a chart is drawn as soon as the ticks of its axes are found. -/
theorem endsOn_size (f : Figure) : f.chart.EndsOn f.chart.size ↔ f.chart.FiniteSpans := by
  cases f with
  | latency | stability => exact and_iff_left rfl
  | resources c => exact ResourceChart.endsOn_iff ResourceChart.bounded_size c

end Figure

namespace Settings

/-- The path of the image of a kind of chart. -/
def pathOf (s : Settings) (kind : ChartKind) : String :=
  Path.join s.outputDir (kind.stem ++ "." ++ s.format.extension)

theorem imagePath_chart (s : Settings) (f : Figure) : s.imagePath f.chart = s.pathOf f.kind := by
  rw [imagePath, f.stem_chart, pathOf]

/-- The data of the samples in the resource log, if there is a log. -/
def logFigure (s : Settings) :
    Except ResourceLog.OpenError (List ResourceLog.Sample) → Except ReportError (Option Figure)
  | .ok rows => .ok (some (.resources ⟨rows⟩))
  | .error (.notFound _) => .ok none
  | .error e => .error (.resourceLog s.resourceLog e)

/-- The data that the chart of a kind draws; nothing if there is no log. -/
def figure (s : Settings) (t : FileTree) : ChartKind → Except ReportError (Option Figure)
  | .latency =>
      ((LatencyChart.ofScenarios s.scenarios).mapError .invalidScenarios).map fun c =>
        some (.latency c)
  | .stability =>
      ((StabilityChart.ofScenarios s.scenarios).mapError .invalidScenarios).map fun c =>
        some (.stability c)
  | .resources => s.logFigure (ResourceLog.openLog t s.resourceLog)

/-- The outcome, if there is one, and the files when the data of a chart have been
collected. -/
def settle (s : Settings) (t : FileTree) :
    Except ReportError (Option Figure) → Option Outcome × FileTree
  | .error e => (some (.failed e), t)
  | .ok none => (some (.skipped s.resourceLog), t)
  | .ok (some f) =>
      match s.writeImage t f.chart with
      | some (.ok u) => (some (.rendered (s.imagePath f.chart)), u)
      | some (.error e) => (some (.failed (.chart e)), t)
      | none => (none, t)

/-- What `render` answers and leaves behind when it has data. -/
theorem settle_render (s : Settings) (t : FileTree) (f : Figure) :
    (((s.render t f.chart).map some).result.map s.outcomeOf, (s.render t f.chart).files) =
      s.settle t (.ok (some f)) := by
  rw [render, settle]
  cases s.writeImage t f.chart with
  | none => rfl
  | some result => cases result <;> rfl

/-- Every attempt collects the data of its chart and then writes their image. -/
theorem renderChart_eq_settle (s : Settings) (t : FileTree) (kind : ChartKind) :
    ((s.renderChart t kind).outcome, (s.renderChart t kind).files) =
      s.settle t (s.figure t kind) := by
  cases kind with
  | latency =>
    rw [renderChart, renderKind, renderLatency, figure]
    cases LatencyChart.ofScenarios s.scenarios with
    | error e => rfl
    | ok c => exact s.settle_render t (.latency c)
  | stability =>
    rw [renderChart, renderKind, renderStability, figure]
    cases StabilityChart.ofScenarios s.scenarios with
    | error e => rfl
    | ok c => exact s.settle_render t (.stability c)
  | resources =>
    rw [renderChart, renderKind, renderResources, figure]
    cases ResourceLog.openLog t s.resourceLog with
    | error e => cases e <;> rfl
    | ok rows => exact s.settle_render t (.resources ⟨rows⟩)

theorem outcome_eq_settle (s : Settings) (t : FileTree) (kind : ChartKind) :
    (s.renderChart t kind).outcome = (s.settle t (s.figure t kind)).1 :=
  congrArg Prod.fst (s.renderChart_eq_settle t kind)

/-- The data are those of the kind that was asked for. -/
theorem kind_of_figure {s : Settings} {t : FileTree} {kind : ChartKind} {f : Figure}
    (h : s.figure t kind = .ok (some f)) : f.kind = kind := by
  cases kind with
  | latency =>
    rw [figure, Except.map_eq_ok_iff] at h
    obtain ⟨c, _, hc⟩ := h
    exact congrArg Figure.kind (Option.some.inj hc).symm
  | stability =>
    rw [figure, Except.map_eq_ok_iff] at h
    obtain ⟨c, _, hc⟩ := h
    exact congrArg Figure.kind (Option.some.inj hc).symm
  | resources =>
    rw [figure] at h
    cases hlog : ResourceLog.openLog t s.resourceLog with
    | error e =>
      rw [hlog] at h
      cases e <;> cases h
    | ok rows =>
      rw [hlog] at h
      cases h
      rfl

/-! ## Writing an image -/

section

variable {s : Settings} {t u : FileTree} {f : Figure}

theorem writeImage_chart (s : Settings) (t : FileTree) (f : Figure) :
    s.writeImage t f.chart =
      match s.format with
      | .svg =>
          if f.chart.FiniteSpans then
            some ((t.replace (s.imagePath f.chart) (imageBytes f.chart)).mapError fun e =>
              .draw (.output e))
          else none
      | .png => some (.error (.unsupportedFormat .png)) := by
  rw [writeImage]
  cases s.format with
  | svg =>
    by_cases hends : f.chart.FiniteSpans
    · exact (if_pos (f.endsOn_size.mpr hends)).trans (if_pos hends).symm
    · exact (if_neg (mt f.endsOn_size.mp hends)).trans (if_neg hends).symm
  | png => rfl

theorem writeImage_eq_ok_iff :
    s.writeImage t f.chart = some (.ok u) ↔
      s.format = .svg ∧ f.chart.FiniteSpans ∧
        ∃ l, t.target (s.imagePath f.chart) = .ok l ∧ ReplacedAt t u l f.content := by
  rw [writeImage_chart, Figure.content]
  cases s.format with
  | svg =>
    by_cases hends : f.chart.FiniteSpans
    · rw [if_pos hends]
      simp only [Option.some.injEq, Except.mapError_eq_ok_iff, replace_eq_ok_iff, hends, true_and]
    · rw [if_neg hends]
      simp only [reduceCtorEq, hends, false_and, and_false]
  | png => simp

/-- An image is not written because its drawing never ends. -/
theorem writeImage_eq_none_iff :
    s.writeImage t f.chart = none ↔ s.format = .svg ∧ ¬f.chart.FiniteSpans := by
  rw [writeImage_chart]
  cases s.format with
  | svg =>
    by_cases hends : f.chart.FiniteSpans
    · rw [if_pos hends]
      simp only [reduceCtorEq, hends, not_true, and_false]
    · rw [if_neg hends]
      simp only [hends, not_false_eq_true, and_true]
  | png => simp

/-- An attempt that answers `rendered` replaced one file. -/
theorem settle_eq_rendered_iff {path : String} {found : Except ReportError (Option Figure)} :
    s.settle t found = (some (.rendered path), u) ↔
      ∃ f l, found = .ok (some f) ∧ path = s.imagePath f.chart ∧ s.format = .svg ∧
        f.chart.FiniteSpans ∧ t.target path = .ok l ∧ ReplacedAt t u l f.content := by
  cases found with
  | error e => simp [settle]
  | ok found =>
    cases found with
    | none => simp [settle]
    | some f =>
      -- an image is written only if there is a target, and there is one file tree then
      have hwrite : s.settle t (.ok (some f)) = (some (.rendered path), u) ↔
          path = s.imagePath f.chart ∧ s.writeImage t f.chart = some (.ok u) := by
        rw [settle]
        cases s.writeImage t f.chart with
        | none => simp
        | some result => cases result <;> simp [eq_comm]
      rw [hwrite, writeImage_eq_ok_iff]
      constructor
      · rintro ⟨rfl, hformat, hends, l, hl, hu⟩
        exact ⟨f, l, rfl, rfl, hformat, hends, hl, hu⟩
      · rintro ⟨g, l, hg, rfl, hformat, hends, hl, hu⟩
        obtain rfl : f = g := by simpa using hg
        exact ⟨rfl, hformat, hends, l, hl, hu⟩

/-- Any other attempt leaves the files as they are. -/
theorem settle_files_of_not_rendered {found : Except ReportError (Option Figure)}
    (h : ∀ path, (s.settle t found).1 ≠ some (.rendered path)) : (s.settle t found).2 = t := by
  cases found with
  | error e => rfl
  | ok found =>
    cases found with
    | none => rfl
    | some f =>
      rw [settle] at h ⊢
      cases hw : s.writeImage t f.chart with
      | none => rfl
      | some result =>
        rw [hw] at h
        cases result with
        | error e => rfl
        | ok u => exact absurd rfl (h _)

end

/-! ## One attempt -/

/-- The attempt answered that it wrote an image. -/
def Attempted.isRendered (a : Attempted) : Bool :=
  a.outcome.any Outcome.isRendered

theorem Attempted.isRendered_iff {a : Attempted} :
    a.isRendered = true ↔ ∃ path, a.outcome = some (.rendered path) := by
  unfold isRendered
  rcases a.outcome with _ | (path | log | e) <;> simp [Outcome.isRendered]

theorem Attempted.isRendered_eq_false_iff {a : Attempted} :
    a.isRendered = false ↔ ∀ path, a.outcome ≠ some (.rendered path) := by
  rw [← Bool.not_eq_true, isRendered_iff, not_exists]

section

variable {s : Settings} {t : FileTree} {kind : ChartKind}

/-- An attempt that answers `rendered` replaced the file under the path of the image,
which can be read back. -/
theorem exists_replacedAt_of_rendered {path : String}
    (h : (s.renderChart t kind).outcome = some (.rendered path)) :
    path = s.pathOf kind ∧
      ∃ f l, s.figure t kind = .ok (some f) ∧ t.target path = .ok l ∧
        ReplacedAt t (s.renderChart t kind).files l f.content ∧
        (s.renderChart t kind).files.read path = .ok f.content := by
  have hsettle := s.renderChart_eq_settle t kind
  rw [h] at hsettle
  obtain ⟨f, l, hf, hpath, _, _, hl, hu⟩ := settle_eq_rendered_iff.mp hsettle.symm
  rw [imagePath_chart, kind_of_figure hf] at hpath
  exact ⟨hpath, f, l, hf, hl, hu, hu.read_eq (target_eq_ok_iff.mp hl).1⟩

/-- An attempt that answers anything else leaves the files as they are. -/
theorem files_eq_of_not_rendered (h : (s.renderChart t kind).isRendered = false) :
    (s.renderChart t kind).files = t := by
  have hsettle := s.renderChart_eq_settle t kind
  have hnot : ∀ path, (s.settle t (s.figure t kind)).1 ≠ some (.rendered path) := by
    rw [← hsettle]
    exact Attempted.isRendered_eq_false_iff.mp h
  exact (congrArg Prod.snd hsettle).trans (settle_files_of_not_rendered hnot)

end

/-- Drawing the chart of a kind ends, if it comes to that: the spans of all its axes are
finite.  A raster image is refused before it is drawn. -/
def DrawingEnds (s : Settings) (t : FileTree) (kind : ChartKind) : Prop :=
  s.format = .svg → ∀ f, s.figure t kind = .ok (some f) → f.chart.FiniteSpans

/-- An attempt has an outcome unless it draws its chart for ever. -/
theorem isSome_outcome_iff {s : Settings} {t : FileTree} {kind : ChartKind} :
    (s.renderChart t kind).outcome.isSome = true ↔ s.DrawingEnds t kind := by
  rw [outcome_eq_settle, DrawingEnds]
  rcases s.figure t kind with e | _ | f
  · simp [settle]
  · simp [settle]
  · have hends : s.writeImage t f.chart ≠ none ↔ (s.format = .svg → f.chart.FiniteSpans) := by
      rw [Ne, writeImage_eq_none_iff, not_and, Decidable.not_not]
    have houtcome : (s.settle t (.ok (some f))).1.isSome = true ↔ s.writeImage t f.chart ≠ none := by
      rw [settle]
      cases s.writeImage t f.chart with
      | none => simp
      | some result => cases result <;> simp
    rw [houtcome, hends]
    simp

/-- The data that the charts of two reports draw are the same: the labels and the
two series of the chart, or the samples that its log decodes to. -/
def SameData (s s' : Settings) (t t' : FileTree) : ChartKind → Prop
  | .latency =>
      s.scenarios.labels = s'.scenarios.labels ∧
        s.scenarios.averageLatency = s'.scenarios.averageLatency ∧
        s.scenarios.p95Latency = s'.scenarios.p95Latency
  | .stability =>
      s.scenarios.labels = s'.scenarios.labels ∧
        s.scenarios.throughput = s'.scenarios.throughput ∧
        s.scenarios.errorRate = s'.scenarios.errorRate
  | .resources =>
      ∃ samples, ResourceLog.openLog t s.resourceLog = .ok samples ∧
        ResourceLog.openLog t' s'.resourceLog = .ok samples

end Settings

/-- A latency chart takes the labels and its two series as they are. -/
theorem LatencyChart.eq_of_ofScenarios {x : Scenarios} {c : LatencyChart}
    (h : LatencyChart.ofScenarios x = .ok c) :
    c = ⟨x.labels, x.averageLatency, x.p95Latency⟩ :=
  (ofScenarios_eq_ok_iff.mp h).2

/-- A stability chart takes the labels and its two series as they are. -/
theorem StabilityChart.eq_of_ofScenarios {x : Scenarios} {c : StabilityChart}
    (h : StabilityChart.ofScenarios x = .ok c) :
    c = ⟨x.labels, x.throughput, x.errorRate⟩ :=
  (ofScenarios_eq_ok_iff.mp h).2

namespace Settings

/-- Charts of the same data are drawn from the same figure. -/
theorem SameData.figure_eq {s s' : Settings} {t t' : FileTree} {kind : ChartKind}
    (h : SameData s s' t t' kind) {f f' : Figure} (hf : s.figure t kind = .ok (some f))
    (hf' : s'.figure t' kind = .ok (some f')) : f = f' := by
  cases kind with
  | latency =>
    simp only [figure, Except.map_eq_ok_iff, Except.mapError_eq_ok_iff] at hf hf'
    obtain ⟨c, hc, hf⟩ := hf
    obtain ⟨c', hc', hf'⟩ := hf'
    obtain ⟨hlabels, haverage, hp95⟩ := h
    rw [LatencyChart.eq_of_ofScenarios hc, hlabels, haverage, hp95,
      ← LatencyChart.eq_of_ofScenarios hc', hf'] at hf
    exact (Option.some.inj hf).symm
  | stability =>
    simp only [figure, Except.map_eq_ok_iff, Except.mapError_eq_ok_iff] at hf hf'
    obtain ⟨c, hc, hf⟩ := hf
    obtain ⟨c', hc', hf'⟩ := hf'
    obtain ⟨hlabels, hthroughput, herror⟩ := h
    rw [StabilityChart.eq_of_ofScenarios hc, hlabels, hthroughput, herror,
      ← StabilityChart.eq_of_ofScenarios hc', hf'] at hf
    exact (Option.some.inj hf).symm
  | resources =>
    obtain ⟨samples, hlog, hlog'⟩ := h
    rw [figure, hlog] at hf
    rw [figure, hlog'] at hf'
    rw [logFigure] at hf hf'
    exact Option.some.inj (Except.ok.inj (hf.symm.trans hf'))

/-- The frame of an attempt at a chart.

If it answers `rendered`, the path is that of the chart's image in the output
directory, and the file there was created or replaced as a whole, with all other
locations as they were.  The bytes are those of the image of the chart's data, so
two reports with the same data write the same bytes, whatever else they are made
from and whatever files they find.  If it answers anything else or never answers,
the files are as they were. -/
theorem renderChart_frame (s : Settings) (t : FileTree) (kind : ChartKind) :
    (∀ path, (s.renderChart t kind).outcome = some (.rendered path) →
      path = Path.join s.outputDir (kind.stem ++ "." ++ s.format.extension) ∧
        ∃ f l, s.figure t kind = .ok (some f) ∧ t.target path = .ok l ∧
          ReplacedAt t (s.renderChart t kind).files l f.content ∧
          (s.renderChart t kind).files.read path = .ok f.content) ∧
      ((∀ path, (s.renderChart t kind).outcome ≠ some (.rendered path)) →
        (s.renderChart t kind).files = t) ∧
      ∀ s' t' path path', SameData s s' t t' kind →
        (s.renderChart t kind).outcome = some (.rendered path) →
        (s'.renderChart t' kind).outcome = some (.rendered path') →
        (s'.renderChart t' kind).files.read path' =
          (s.renderChart t kind).files.read path := by
  refine ⟨fun path h => exists_replacedAt_of_rendered h,
    fun h => files_eq_of_not_rendered (Attempted.isRendered_eq_false_iff.mpr h), ?_⟩
  intro s' t' path path' hdata h h'
  obtain ⟨_, f, _, hf, _, _, hread⟩ := exists_replacedAt_of_rendered h
  obtain ⟨_, f', _, hf', _, _, hread'⟩ := exists_replacedAt_of_rendered h'
  rw [hread, hread', hdata.figure_eq hf hf']

end Settings

end BenchCharts
