import BenchCharts.Program

/-!
# Command line

Runs the program in the current directory.  The files that it may touch are taken
into a file tree, every attempt at a chart is computed on that tree, and its
image is written to disk before its status line is written.  At a chart that is drawn
for ever the program waits for ever.
-/

namespace BenchCharts.CommandLine

/-- The text of an error of the system. -/
def errorText : IO.Error → String
  | .noFileOrDirectory _ code details => SystemError.numbered details code.toNat
  | .permissionDenied _ code details => SystemError.numbered details code.toNat
  | .resourceExhausted _ code details => SystemError.numbered details code.toNat
  | .inappropriateType _ code details => SystemError.numbered details code.toNat
  | .otherError code details => SystemError.numbered details code.toNat
  | e => toString e

/-- What is on disk under a name, as far as it can be read. -/
def readEntry (name : String) : IO (Option Node) := do
  try
    return some (.file (← IO.FS.readBinFile name).data.toList)
  catch
    | .noFileOrDirectory .. => return none
    | _ => return some .directory

/-- The tree of the files under some names. -/
def readTree (names : List String) : IO FileTree := do
  let mut tree : FileTree := {}
  for name in names do
    if let some node ← readEntry name then
      tree := tree.set [name] node
  return tree

/-- The names of the files that the program reads or writes. -/
def fileNames : List String :=
  let s := Settings.standard
  s.resourceLog :: [LatencyChart.stem, StabilityChart.stem, ResourceChart.stem].map
    fun stem => stem ++ "." ++ s.format.extension

/-- The patterns of the command line are plain texts, which match where they occur. -/
def readPattern : PatternReader :=
  fun pattern => .ok fun text => pattern.isEmpty || (text.splitOn pattern).length ≠ 1

/-- Waits for ever. -/
def waitForever : IO Unit := do
  repeat IO.sleep 1000

/-- Writes the image of an attempt with the given outcome to disk; the outcome is a failure
if that fails. -/
def store (a : Settings.Attempted) (outcome : Outcome) : IO Outcome := do
  match outcome, a.image? with
  | .rendered path, some content =>
      try
        IO.FS.writeBinFile path ⟨content.toArray⟩
        return outcome
      catch e =>
        return .failed (.chart (.draw (.output (.other (errorText e)))))
  | _, _ => return outcome

/-- Shows the events that the filter admits. -/
def showEvents (filter : LogFilter) (journal : Journal) : IO Unit := do
  for line in filter.lines journal do
    IO.eprintln line

/-- Writes a status text at once. -/
def say (text : String) : IO Unit := do
  let out ← IO.getStdout
  out.putStr text
  out.flush

/-- Renders the charts and writes their outcomes. -/
def runReport (s : Settings) (filter : LogFilter) : IO Summary := do
  showEvents filter s.warnings
  let files ← readTree fileNames
  let mut outcomes := []
  for a in s.attempts files ChartKind.all do
    showEvents filter a.work
    match a.outcome with
    | none => waitForever
    | some outcome =>
        let outcome ← store a outcome
        showEvents filter [outcome.event a.kind]
        say (outcome.status a.kind)
        outcomes := outcomes ++ [(a.kind, outcome)]
  let summary : Summary := { outcomes }
  say (summary.banner s.outputDir)
  return summary

end BenchCharts.CommandLine

open BenchCharts CommandLine in
/-- Renders the charts of the current directory; the exit status is one if the status
text could not be written. -/
def main : IO UInt32 := do
  let setting := (← IO.getEnv "RUST_LOG").getD ""
  let filter := LogFilter.ofString readPattern setting
  for line in LogFilter.warnings readPattern setting do
    IO.eprintln line
  try
    let summary ← runReport Settings.standard filter
    showEvents filter [Program.farewell summary]
    return 0
  catch e =>
    for line in Program.complaint (.other (errorText e)) do
      IO.eprintln line
    return 1
