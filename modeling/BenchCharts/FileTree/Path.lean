import BenchCharts.SystemError

/-!
# Paths

A path is a text with names between slashes.  Empty names do not count, but a
slash at the end asks for a directory.  The name `.` stands for the directory in
which it is looked up, and `..` for the one above.
-/

namespace BenchCharts.FileTree

/-- A path by its names. -/
structure Path where
  absolute : Bool
  names : List String
  asDirectory : Bool
  deriving DecidableEq

/-- The longest name in bytes that a directory can hold. -/
def maxNameBytes : Nat := 255

/-- The length in bytes from which a path is refused. -/
def maxPathBytes : Nat := 4096

/-- Splits a text at every slash. -/
def splitSlash : List Char → List (List Char)
  | [] => [[]]
  | '/' :: cs => [] :: splitSlash cs
  | c :: cs =>
      match splitSlash cs with
      | [] => [[c]]
      | name :: names => (c :: name) :: names

namespace Path

/-- Reads a path. -/
def ofString (s : String) : Except SystemError Path :=
  let cs := s.toList
  if cs.contains '\x00' then .error .nulInName
  else if cs = [] then .error .notFound
  else if maxPathBytes ≤ s.utf8ByteSize then .error .nameTooLong
  else
    .ok
      { absolute := cs.head? = some '/'
        names := ((splitSlash cs).filter (· ≠ [])).map String.ofList
        asDirectory := cs.getLast? = some '/' }

/-- The path of a file name inside a directory.  The empty path is the current
directory. -/
def join (dir name : String) : String :=
  if dir = "" then name
  else if dir.toList.getLast? = some '/' then dir ++ name
  else dir ++ "/" ++ name

end Path

end BenchCharts.FileTree
