import BenchCharts.Canvas.Svg
import BenchCharts.Chart.Latency
import BenchCharts.Chart.Resources
import BenchCharts.Chart.Stability
import BenchCharts.Report.Outcome
import BenchCharts.Text.Utf8

/-!
# Rendering one chart of a report

An attempt at a chart checks its data, then the image format, and then writes
the image.  The first stage that fails decides the error, and until the last one
the files are left as they are.

An image is drawn before it is written, and drawing it need not end (`Chart.EndsOn`).
Such an attempt has no result; what it has reported until then is all that is seen
of it.
-/

namespace BenchCharts

/-- The result of a piece of work on the files, if it ends, the files behind it, and
what was reported. -/
structure Attempt (α : Type) where
  result : Option (Except ReportError α)
  files : FileTree
  journal : Journal := []

/-- The work with its result changed. -/
def Attempt.map {α β : Type} (change : α → β) (a : Attempt α) : Attempt β :=
  { result := a.result.map (·.map change), files := a.files, journal := a.journal }

namespace Settings

/-! ## Images -/

/-- The path of a chart's image. -/
def imagePath (s : Settings) (c : Chart) : String :=
  FileTree.Path.join s.outputDir (c.stem ++ "." ++ s.format.extension)

/-- The bytes of a chart's image. -/
def imageBytes (c : Chart) : List UInt8 :=
  Text.Utf8.encode c.image.write.toList

/-- The files with a chart's image written, if drawing it ends.  There is no drawing of
pixels: the raster format is refused before anything is drawn. -/
def writeImage (s : Settings) (files : FileTree) (c : Chart) :
    Option (Except ChartError FileTree) :=
  match s.format with
  | .svg =>
      if c.EndsOn c.size then
        some ((files.replace (s.imagePath c) (imageBytes c)).mapError fun e => .draw (.output e))
      else none
  | .png => some (.error (.unsupportedFormat .png))

/-- Writes a chart's image and answers its path. -/
def render (s : Settings) (files : FileTree) (c : Chart) : Attempt String :=
  let path := s.imagePath c
  let journal := [⟨.debug, .chart, s!"rendering {path}"⟩]
  match s.writeImage files c with
  | some (.ok files) => { result := some (.ok path), files, journal }
  | some (.error e) => { result := some (.error (.chart e)), files, journal }
  | none => { result := none, files, journal }

/-! ## Charts -/

/-- Renders a chart whose data have been checked. -/
def renderChecked (s : Settings) (files : FileTree) (c : Except ShapeError Chart) :
    Attempt String :=
  match c with
  | .ok c => s.render files c
  | .error e => { result := some (.error (.invalidScenarios e)), files }

def renderLatency (s : Settings) (files : FileTree) : Attempt String :=
  s.renderChecked files ((LatencyChart.ofScenarios s.scenarios).map LatencyChart.chart)

def renderStability (s : Settings) (files : FileTree) : Attempt String :=
  s.renderChecked files ((StabilityChart.ofScenarios s.scenarios).map StabilityChart.chart)

/-- Renders the samples of the resource log; without a log there is no path. -/
def renderResources (s : Settings) (files : FileTree) : Attempt (Option String) :=
  let samples := ResourceLog.openLog files s.resourceLog
  match samples with
  | .error (.notFound _) => { result := some (.ok none), files }
  | .error e => { result := some (.error (.resourceLog s.resourceLog e)), files }
  | .ok rows =>
      let a := (s.render files (ResourceChart.chart ⟨rows⟩)).map some
      { a with journal := ResourceLog.openEvents s.resourceLog samples ++ a.journal }

/-- Renders a chart of the given kind and answers its path, if there was something
to chart. -/
def renderKind (s : Settings) (files : FileTree) : ChartKind → Attempt (Option String)
  | .latency => (s.renderLatency files).map some
  | .stability => (s.renderStability files).map some
  | .resources => s.renderResources files

/-! ## Outcomes -/

/-- A chart of a report, what became of it, if the attempt ends, the files behind it, and
what was reported on the way to the outcome. -/
structure Attempted where
  kind : ChartKind
  outcome : Option Outcome
  files : FileTree
  work : Journal

/-- What was reported about an attempt, its outcome last. -/
def Attempted.journal (a : Attempted) : Journal :=
  a.work ++ (a.outcome.map (·.event a.kind)).toList

/-- The bytes of the image that an attempt wrote. -/
def Attempted.image? (a : Attempted) : Option (List UInt8) :=
  match a.outcome with
  | some (.rendered path) => (a.files.read path).toOption
  | _ => none

/-- The outcome that a result stands for. -/
def outcomeOf (s : Settings) : Except ReportError (Option String) → Outcome
  | .ok (some path) => .rendered path
  | .ok none => .skipped s.resourceLog
  | .error e => .failed e

/-- Renders a chart and reports its outcome. -/
def renderChart (s : Settings) (files : FileTree) (kind : ChartKind) : Attempted :=
  let a := s.renderKind files kind
  { kind, outcome := a.result.map s.outcomeOf, files := a.files, work := a.journal }

end Settings

end BenchCharts
