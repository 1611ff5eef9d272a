import BenchCharts.FileTree.Basic

/-!
# Changing a file tree

Making directories and sockets, removing entries, and the listing of a tree.
-/

namespace BenchCharts.FileTree

/-! ## Making -/

/-- The location of a path at which nothing is yet; `taken` is the error when
something is. -/
def vacant (t : FileTree) (p : Path) (taken : SystemError) : Except SystemError Location := do
  let l ← t.locate p
  if (t.get? l).isSome then .error taken else .ok l

/-- Makes a directory in an existing one. -/
def makeDirectory (t : FileTree) (p : Path) : Except SystemError FileTree :=
  (t.vacant p .alreadyExists).map fun l => t.set l .directory

/-- The path leads to a directory. -/
def isDirectory (t : FileTree) (p : Path) : Bool :=
  match t.locate p with
  | .ok l => t.get? l = some .directory
  | .error _ => false

/-- Makes a directory; `above` is the tree with the directories above it made, for
the case that one of them is missing. -/
def makeBelow (t : FileTree) (p : Path) (above : FileTree × Option SystemError) :
    FileTree × Option SystemError :=
  let settle (t : FileTree) (e : SystemError) : FileTree × Option SystemError :=
    if t.isDirectory p then (t, none) else (t, some e)
  match t.makeDirectory p, above with
  | .ok t, _ => (t, none)
  | .error .notFound, (above, some e) => (above, some e)
  | .error .notFound, (above, none) =>
      match above.makeDirectory p with
      | .ok t => (t, none)
      | .error e => settle above e
  | .error e, _ => settle t e

/-- Makes the directory with the given names, the last one first, and the
directories above it as far as they are missing.  What was made before an error
stays. -/
def makeNames (absolute : Bool) (t : FileTree) : List String → FileTree × Option SystemError
  | [] => (t, none)
  | name :: above =>
      t.makeBelow { absolute, names := (name :: above).reverse, asDirectory := false }
        (makeNames absolute t above)

/-- The names above a path, the last one first.  A dot at the end of a path adds
no name to it. -/
def namesAbove (p : Path) : List String :=
  (p.names.reverse.dropWhile (· = ".")).tail

/-- Makes a directory and the missing directories above it. -/
def makeDirectories (t : FileTree) (path : String) : FileTree × Option SystemError :=
  if path = "" then (t, none)
  else
    match Path.ofString path with
    | .error e => (t, some e)
    | .ok p => t.makeBelow p (makeNames p.absolute t (namesAbove p))

/-- The longest path in bytes that a socket can have. -/
def maxSocketBytes : Nat := 107

/-- Makes a socket.  One without a path is no entry of the tree. -/
def makeSocket (t : FileTree) (path : String) : Except SystemError FileTree :=
  if path.toList.contains '\x00' then .error .nulInSocketName
  else if maxSocketBytes < path.utf8ByteSize then .error .socketNameTooLong
  else if path = "" then .ok t
  else do
    let p ← Path.ofString path
    let l ← t.vacant p .addressInUse
    if p.asDirectory then .error .notFound else .ok (t.set l .socket)

/-! ## Removing -/

/-- The path of an existing entry and its location. -/
def existing (t : FileTree) (path : String) : Except SystemError (Path × Location) := do
  let _ ← t.lookup path
  let p ← Path.ofString path
  let l ← t.locate p
  .ok (p, l)

/-- Removes a file, or a directory with everything below it.  A directory that a
path names by a dot is emptied, but it stays and is reported as an error. -/
def remove (t : FileTree) (path : String) : FileTree × Option SystemError :=
  match t.existing path with
  | .error e => (t, some e)
  | .ok (p, l) =>
      if p.names.getLast? = some "." then (t.clear l, some .invalidArgument)
      else (t.erase l, none)

/-! ## Listing -/

/-- The names of a location with slashes between them. -/
def locationText (l : Location) : String :=
  String.intercalate "/" l

/-- An entry as a listing shows it: directories end in a slash, and all else has
its size. -/
def entryText : Location × Node → String
  | (l, .file content) => s!"{locationText l} {content.length}"
  | (l, .socket) => s!"{locationText l} 0"
  | (l, .directory) => locationText l ++ "/"

/-- The entry lies below the current directory. -/
def isInside (l : Location) : Bool :=
  l.head? ≠ some ".." && l.head? ≠ rootLocation.head?

/-- All entries below the current directory in the order of their texts. -/
def listing (t : FileTree) : List String :=
  ((t.entries.filter (isInside ·.1)).map entryText).mergeSort fun a b => !decide (b < a)

end BenchCharts.FileTree
