import BenchCharts.Report.Run

/-!
# The program

The program runs a report with the standard settings.  Its exit status tells
only whether the status text could be written; what became of the charts is in
that text.  A program whose report never ends does not exit.
-/

namespace BenchCharts.Program

/-- What a run of the program leaves behind; without an exit status it runs on. -/
structure Result where
  exit : Option Nat
  output : List UInt8
  errors : List String
  files : FileTree

/-- The last event of a run that could write its status text. -/
def farewell (summary : Summary) : Event :=
  ⟨.debug, .program, s!"{summary.rendered} charts rendered"⟩

/-- The lines about a status text that could not be written. -/
def complaint (e : SystemError) : List String :=
  ["Error: failed to write report status", "", "Caused by:", s!"    {e.message}"]

/-- Runs the program on the files of the current directory, with the text of its
log setting and the sink of its status text.  A missing setting counts as an empty
one. -/
def run (read : PatternReader) (files : FileTree) (logSetting : Option String) (sink : Sink) :
    Result :=
  let setting := logSetting.getD ""
  let filter := LogFilter.ofString read setting
  let r := Settings.standard.run files sink
  let shown := LogFilter.warnings read setting ++ filter.lines r.journal
  let output := r.sink.written
  match r.result with
  | some (.ok summary) =>
      { exit := some 0, output, errors := shown ++ filter.lines [farewell summary], files := r.files }
  | some (.error e) =>
      { exit := some 1, output, errors := shown ++ complaint e, files := r.files }
  | none => { exit := none, output, errors := shown, files := r.files }

end BenchCharts.Program
