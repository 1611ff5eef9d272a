import BenchCharts.FileTree.Basic
import BenchCharts.Journal
import BenchCharts.ResourceLog.Decoder

/-!
# Opening a resource log

A log is a file whose rows are all good.  A path without an entry is told apart
from an entry that cannot be read, because a missing log is no failure of a
report.
-/

namespace BenchCharts.ResourceLog

/-- Why there are no samples. -/
inductive OpenError where
  | notFound (path : String)
  | opening (e : SystemError)
  | decoding (e : DecodeError)
  deriving DecidableEq

namespace OpenError

def message : OpenError → String
  | notFound path => s!"resource log {path} not found"
  | opening e => s!"error opening resource log: {e.message}"
  | decoding e => e.message

end OpenError

/-- The bytes of an entry.  A directory can be opened but not read. -/
def sourceOf : Node → Except SystemError Source
  | .file content => .ok (.ofBytes content)
  | .directory => .ok { reads := [], failure := some .isDirectory }
  | .socket => .error .noDevice

/-- Opens an existing log and decodes all of it. -/
def readLog (files : FileTree) (path : String) : Except OpenError (List Sample) := do
  let node ← (files.lookup path).mapError .opening
  let source ← (sourceOf node).mapError .opening
  (Decoder.ofSource source).decode.1.mapError .decoding

/-- The samples of the log at a path. -/
def openLog (files : FileTree) (path : String) : Except OpenError (List Sample) :=
  if files.contains path then readLog files path else .error (.notFound path)

/-- What is reported about opening a log. -/
def openEvents (path : String) : Except OpenError (List Sample) → Journal
  | .ok samples =>
      [{ level := .debug
         topic := .resourceLog
         text := s!"loaded {samples.length} resource samples from {path}" }]
  | .error _ => []

end BenchCharts.ResourceLog
