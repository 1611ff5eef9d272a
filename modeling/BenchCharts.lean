import BenchCharts.Binary.Bits
import BenchCharts.FileTree.Change
import BenchCharts.Main
import BenchCharts.Proofs.Except
import BenchCharts.Proofs.FileTree.Replace
import BenchCharts.Proofs.Report.Frame
import BenchCharts.Proofs.Report.Run
import BenchCharts.Proofs.Report.Isolation
import BenchCharts.Proofs.Decimal.Literal
import BenchCharts.Proofs.Decimal.Scientific
import BenchCharts.Proofs.ResourceLog.Calls
import BenchCharts.Proofs.ResourceLog.Grammar
import BenchCharts.Proofs.ResourceLog.Open
import BenchCharts.Proofs.ResourceLog.Reading
import BenchCharts.Proofs.ResourceLog.RoundTrip
import BenchCharts.Proofs.ResourceLog.Failure
import BenchCharts.Proofs.Report.Interruption
import BenchCharts.Proofs.Binary.Nearest
import BenchCharts.Proofs.Binary.Rank
import BenchCharts.Proofs.Axis.Drawable
import BenchCharts.Proofs.Chart.ResourceAxes
import BenchCharts.Proofs.Report.Decision
import BenchCharts.Proofs.Report.Repetition
import BenchCharts.Proofs.Canvas.Svg
import BenchCharts.Proofs.Program.ExitStatus
import BenchCharts.Proofs.Chart.Labels
import BenchCharts.Proofs.ResourceLog.ErrorPlace
import BenchCharts.Proofs.Binary.Error
import BenchCharts.Proofs.Binary.Hypotenuse
import BenchCharts.Proofs.Plot.Dash
import BenchCharts.Proofs.Plot.Pen
import BenchCharts.Proofs.Chart.Ending
import BenchCharts.Proofs.Axis.Search
import BenchCharts.Proofs.Chart.Marks
import BenchCharts.Proofs.Chart.Samples
import BenchCharts.Proofs.Report.Journal
import BenchCharts.Proofs.Report.Validation
import BenchCharts.Proofs.Axis.Cover
import BenchCharts.Proofs.Chart.Inside
import BenchCharts.Proofs.Binary.Ratio
import BenchCharts.Proofs.Decimal.Value
import BenchCharts.Proofs.Decimal.Search
import BenchCharts.Proofs.Decimal.Numeral
import BenchCharts.Proofs.Chart.Percent
import BenchCharts.Proofs.Binary.Integer
import BenchCharts.Proofs.Axis.CategoryLabel
import BenchCharts.Proofs.Axis.SameValues
import BenchCharts.Proofs.Chart.BarLabel
import BenchCharts.Proofs.Chart.LogOrder
import BenchCharts.Proofs.ResourceLog.Elapsed
