import BenchCharts.Report.Settings
import BenchCharts.ResourceLog.Open

/-!
# Outcomes

What became of the charts of a report, and the texts that say so.
-/

namespace BenchCharts

/-! ## Kinds of charts -/

/-- One of the three charts. -/
inductive ChartKind where
  | latency
  | stability
  | resources
  deriving DecidableEq

namespace ChartKind

/-- The order in which a report renders its charts. -/
def all : List ChartKind := [latency, stability, resources]

def title : ChartKind → String
  | latency => "chart 1 (response time)"
  | stability => "chart 2 (stability)"
  | resources => "chart 3 (resources)"

end ChartKind

/-! ## Errors -/

/-- Why a drawing could not be put out. -/
inductive DrawFailure where
  | output (e : SystemError)
  | other (text : String)
  deriving DecidableEq

def DrawFailure.message : DrawFailure → String
  | output e => s!"backend error: Drawing backend error: {e.message}"
  | other text => text

/-- Why an image could not be made from a chart. -/
inductive ChartError where
  | draw (reason : DrawFailure)
  | unsupportedFormat (format : ImageFormat)
  deriving DecidableEq

def ChartError.message : ChartError → String
  | draw reason => s!"error drawing chart: {reason.message}"
  | unsupportedFormat format => s!"{format.extension} output requires the `raster` feature"

/-- Why a chart of a report failed. -/
inductive ReportError where
  | invalidScenarios (e : ShapeError)
  | resourceLog (path : String) (e : ResourceLog.OpenError)
  | chart (e : ChartError)
  deriving DecidableEq

def ReportError.message : ReportError → String
  | invalidScenarios e => s!"invalid scenarios: {e.message}"
  | resourceLog path e => s!"error reading resource log {path}: {e.message}"
  | chart e => e.message

/-! ## Outcomes -/

/-- What became of a chart: its image was written, there was no log to chart, or
it failed. -/
inductive Outcome where
  | rendered (path : String)
  | skipped (log : String)
  | failed (e : ReportError)
  deriving DecidableEq

namespace Outcome

/-- The image was written. -/
def isRendered : Outcome → Bool
  | rendered _ => true
  | _ => false

/-- The line that tells the outcome to a user. -/
def status (kind : ChartKind) : Outcome → String
  | rendered path => s!"Rendered {kind.title}: {path}\n"
  | skipped log =>
      s!"Warning: {log} not found. Run the resource monitor first to render {kind.title}.\n"
  | failed e => s!"Error: {kind.title} not rendered: {e.message}\n"

/-- The event that tells the outcome in the journal. -/
def event (kind : ChartKind) : Outcome → Event
  | rendered path => ⟨.info, .report, s!"rendered {kind.title} to {path}"⟩
  | skipped log => ⟨.warn, .report, s!"skipping {kind.title}: {log} not found"⟩
  | failed e => ⟨.error, .report, s!"failed to render {kind.title}: {e.message}"⟩

end Outcome

/-- The outcomes of a report in the order of its charts. -/
structure Summary where
  outcomes : List (ChartKind × Outcome)
  deriving DecidableEq

namespace Summary

/-- The number of images written. -/
def rendered (s : Summary) : Nat :=
  s.outcomes.countP (·.2.isRendered)

/-- The first outcome of a kind of chart. -/
def outcome? (s : Summary) (kind : ChartKind) : Option Outcome :=
  (s.outcomes.find? (·.1 = kind)).map (·.2)

/-- The text behind the status lines. -/
def banner (s : Summary) (outputDir : String) : String :=
  s!"\nDone: {s.rendered} of {ChartKind.all.length} charts rendered into {outputDir}\n"

end Summary

end BenchCharts
