import BenchCharts.Binary.Basic

/-!
# Load scenarios

The measured series of a benchmark: one value per scenario in every series, and
a label for every scenario.  `checkShape` refuses a set without scenarios, and
otherwise names the first series whose length is not the number of labels.
-/

namespace BenchCharts

/-- A measured series and the name under which it is reported. -/
structure Series where
  name : String
  values : List Double

/-- Why series do not fit their labels. -/
inductive ShapeError where
  | noScenarios
  | lengthMismatch (series : String) (expected actual : Nat)
  deriving DecidableEq

namespace ShapeError

def message : ShapeError → String
  | noScenarios => "no scenarios configured"
  | lengthMismatch series expected actual =>
      s!"{series} has {actual} values but there are {expected} scenario labels"

end ShapeError

/-- Checks that there are labels, and that every series has one value per label. -/
def checkShape (labels : List String) (series : List Series) : Except ShapeError Unit :=
  if labels = [] then .error .noScenarios
  else
    match series.find? (·.values.length ≠ labels.length) with
    | none => .ok ()
    | some s => .error (.lengthMismatch s.name labels.length s.values.length)

/-- The scenarios of a benchmark in order of increasing load: mean and 95th
percentile of the response time in milliseconds, requests per second, and the
share of failed requests in percent. -/
structure Scenarios where
  labels : List String := []
  averageLatency : List Double := []
  p95Latency : List Double := []
  throughput : List Double := []
  errorRate : List Double := []
  deriving DecidableEq

namespace Scenarios

def averageSeries (s : Scenarios) : Series := ⟨"avg_latency", s.averageLatency⟩

def p95Series (s : Scenarios) : Series := ⟨"p95_latency", s.p95Latency⟩

def throughputSeries (s : Scenarios) : Series := ⟨"throughput", s.throughput⟩

def errorSeries (s : Scenarios) : Series := ⟨"error_rate", s.errorRate⟩

/-- Checks all four series. -/
def validate (s : Scenarios) : Except ShapeError Unit :=
  checkShape s.labels [s.averageSeries, s.p95Series, s.throughputSeries, s.errorSeries]

end Scenarios

end BenchCharts
