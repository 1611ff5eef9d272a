import BenchCharts.Report.Render

/-!
# Running a report

A run attempts every chart in order and writes a status line for each, then a
banner.  A chart that fails or is skipped stops nothing; only a failure to
write the status text ends a run.  No chart is attempted behind a status line
that could not be written, and none behind a chart that is drawn for ever; a run
that comes to such a chart never ends.
-/

namespace BenchCharts

/-! ## Writing -/

/-- Where the status text goes: what has been written, the number of bytes that
can be written in all, the error of a further byte, and the error of flushing. -/
structure Sink where
  written : List UInt8 := []
  capacity : Option Nat := none
  full : SystemError := .noSpace
  flushError : Option SystemError := none

namespace Sink

/-- Writes the bytes that there is room for. -/
def writeBytes (s : Sink) (bs : List UInt8) : Except SystemError Unit × Sink :=
  match s.capacity with
  | none => (.ok (), { s with written := s.written ++ bs })
  | some capacity =>
      let room := capacity - s.written.length
      (if bs.length ≤ room then .ok () else .error s.full,
        { s with written := s.written ++ bs.take room })

/-- Writes a text. -/
def write (s : Sink) (text : String) : Except SystemError Unit × Sink :=
  s.writeBytes (Text.Utf8.encode text.toList)

/-- Makes sure that everything written has arrived. -/
def flush (s : Sink) : Except SystemError Unit :=
  match s.flushError with
  | none => .ok ()
  | some e => .error e

end Sink

/-! ## Runs -/

/-- What a run leaves behind: its summary or the error of writing, if it ends, the sink,
the files, and what was reported. -/
structure RunResult where
  result : Option (Except SystemError Summary)
  sink : Sink
  files : FileTree
  journal : Journal

namespace Settings

/-- The attempts at charts one after another, each on the files behind the one
before.  Behind one that never ends there is no other. -/
def attempts (s : Settings) (files : FileTree) : List ChartKind → List Attempted
  | [] => []
  | kind :: rest =>
      let a := s.renderChart files kind
      a :: if a.outcome.isSome then s.attempts a.files rest else []

/-- The warning about scenarios that do not fit together. -/
def warnings (s : Settings) : Journal :=
  match s.scenarios.validate with
  | .ok () => []
  | .error e => [⟨.warn, .report, s!"invalid scenarios: {e.message}"⟩]

/-- Writes the banner behind the status lines of a run. -/
def finish (s : Settings) (summary : Summary) (files : FileTree) (sink : Sink)
    (journal : Journal) : RunResult :=
  let (written, sink) := sink.write (summary.banner s.outputDir)
  let result := do
    written
    sink.flush
    .ok summary
  { result := some result, sink, files, journal }

/-- Goes through the attempts of a run; the outcomes `done` are behind it. -/
def runFrom (s : Settings) (files : FileTree) (sink : Sink) (journal : Journal)
    (done : List (ChartKind × Outcome)) : List Attempted → RunResult
  | [] => s.finish { outcomes := done } files sink journal
  | a :: rest =>
      let journal := journal ++ a.journal
      match a.outcome with
      | none => { result := none, sink, files := a.files, journal }
      | some outcome =>
          match sink.write (outcome.status a.kind) with
          | (.ok (), sink) => s.runFrom a.files sink journal (done ++ [(a.kind, outcome)]) rest
          | (.error e, sink) => { result := some (.error e), sink, files := a.files, journal }

/-- Renders all charts and writes their outcomes. -/
def run (s : Settings) (files : FileTree) (sink : Sink) : RunResult :=
  s.runFrom files sink s.warnings [] (s.attempts files ChartKind.all)

end Settings

end BenchCharts
