import BenchCharts.Binary.Basic

/-!
# Resource samples

What the resource monitor records once per interval.
-/

namespace BenchCharts.ResourceLog

/-- One row of the resource log: the seconds since the start of the test, the
processor load in percent and the memory in megabytes. -/
structure Sample where
  seconds : UInt64
  cpu : Double
  ram : Double
  deriving DecidableEq

/-- The elapsed seconds as a coordinate. -/
def Sample.time (s : Sample) : Double :=
  .ofNat s.seconds.toNat

end BenchCharts.ResourceLog
