import BenchCharts.Scenarios

/-!
# Settings of a report

What a report is made from and where its images go.
-/

namespace BenchCharts

/-- The format of an image. -/
inductive ImageFormat where
  | svg
  | png
  deriving DecidableEq

/-- The ending of an image's file name. -/
def ImageFormat.extension : ImageFormat → String
  | svg => "svg"
  | png => "png"

/-- The inputs of a report: the scenarios, the path of the resource log, the
directory of the images and their format. -/
structure Settings where
  scenarios : Scenarios
  resourceLog : String
  outputDir : String
  format : ImageFormat
  deriving DecidableEq

namespace Settings

/-- The measurements of the benchmark that is charted unless others are given. -/
def defaultScenarios : Scenarios where
  labels := ["50 Users (Baseline)", "200 Users (Load)", "500 Users (Stress)"]
  averageLatency := [13.15, 33.68, 629.54]
  p95Latency := [15.52, 48.58, 5898.50]
  throughput := [7.2, 128.5, 178.6]
  errorRate := [0.0, 3.0, 13.89]

/-- The settings of the program: everything is in the current directory. -/
def standard : Settings where
  scenarios := defaultScenarios
  resourceLog := "resource_log.csv"
  outputDir := "."
  format := .svg

end Settings

end BenchCharts
