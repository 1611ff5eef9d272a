import BenchCharts.FileTree.Path

/-!
# File trees

What lies below the current directory: files with their bytes, sockets and
directories, each at its location.  A location is the list of names that lead to
it; the directories above the current one have the locations `..`, `../..` and
so on, and nothing else is known of them.

`FileTree.lookup` follows a path, and `FileTree.replace` creates a file or
replaces its content.  `get?_set_self` and `get?_set_of_ne` say that setting one
location leaves the others alone.
-/

namespace BenchCharts

/-- What a location holds.  There are no links, no devices and no permissions: what can be
done with an entry depends on its kind alone. -/
inductive Node where
  | file (content : List UInt8)
  | socket
  | directory
  deriving DecidableEq

/-- The names that lead from the current directory to an entry. -/
abbrev Location := List String

/-- The known entries below the current directory. -/
structure FileTree where
  entries : List (Location × Node) := []
  deriving DecidableEq, Inhabited

namespace FileTree

/-! ## Locations -/

/-- The location from which absolute paths start. -/
def rootLocation : Location := ["/"]

/-- The directory is outside the tree or is the current one. -/
def isOutside (l : Location) : Bool :=
  l.all (· = "..") || l = rootLocation

/-- The directory above. -/
def parent (l : Location) : Location :=
  if l = rootLocation then l
  else if l.getLast? = none ∨ l.getLast? = some ".." then l ++ [".."]
  else l.dropLast

/-- The entry at a location. -/
def get? (t : FileTree) (l : Location) : Option Node :=
  if isOutside l then some .directory else (t.entries.find? (·.1 = l)).map (·.2)

/-- Puts an entry at a location; an entry that is there keeps its place in the
list. -/
def set (t : FileTree) (l : Location) (n : Node) : FileTree :=
  if t.entries.any (·.1 = l) then
    { entries := t.entries.map fun e => if e.1 = l then (l, n) else e }
  else
    { entries := t.entries ++ [(l, n)] }

/-- Drops a location and everything below it. -/
def erase (t : FileTree) (l : Location) : FileTree :=
  { entries := t.entries.filter fun e => !l.isPrefixOf e.1 }

/-- Drops everything below a location. -/
def clear (t : FileTree) (l : Location) : FileTree :=
  { entries := t.entries.filter fun e => e.1 = l || !l.isPrefixOf e.1 }

private theorem find?_map_set (entries : List (Location × Node)) (l m : Location) (n : Node) :
    (entries.map fun e => if e.1 = l then (l, n) else e).find? (·.1 = m) =
      if l = m then (entries.find? (·.1 = m)).map fun _ => (l, n)
      else entries.find? (·.1 = m) := by
  induction entries with
  | nil => simp
  | cons e rest ih =>
      rw [List.map_cons, List.find?_cons, List.find?_cons, ih]
      by_cases hel : e.1 = l <;> by_cases hlm : l = m <;> simp_all

theorem get?_set_self (t : FileTree) (l : Location) (n : Node) (h : isOutside l = false) :
    (t.set l n).get? l = some n := by
  simp only [get?, set, h, Bool.false_eq_true, if_false]
  split
  next hany =>
    rw [find?_map_set, if_pos rfl]
    obtain ⟨e, he, hl⟩ := List.any_eq_true.mp hany
    cases hfind : t.entries.find? (·.1 = l) with
    | none => exact absurd hl (List.find?_eq_none.mp hfind e he)
    | some _ => rfl
  next hany =>
    rw [List.find?_append]
    have hnone : t.entries.find? (·.1 = l) = none :=
      List.find?_eq_none.mpr fun e he hl => hany (List.any_eq_true.mpr ⟨e, he, hl⟩)
    simp [hnone]

theorem get?_set_of_ne (t : FileTree) {l m : Location} (n : Node) (h : l ≠ m) :
    (t.set l n).get? m = t.get? m := by
  simp only [get?, set]
  split
  · rfl
  · split
    · rw [find?_map_set, if_neg h]
    · rw [List.find?_append]
      cases t.entries.find? (·.1 = m) <;> simp [h]

/-! ## Following paths -/

/-- Looks up a name in a directory; what it names need not exist. -/
def enter (t : FileTree) (l : Location) (name : String) : Except SystemError Location :=
  match t.get? l with
  | none => .error .notFound
  | some .directory =>
      if name = "." then .ok l
      else if name = ".." then .ok (parent l)
      else if maxNameBytes < name.utf8ByteSize then .error .nameTooLong
      else .ok (l ++ [name])
  | some _ => .error .notDirectory

/-- The location of a path, of which all but the last name must exist. -/
def locate (t : FileTree) (p : Path) : Except SystemError Location :=
  p.names.foldlM t.enter (if p.absolute then rootLocation else [])

/-- The entry of a path. -/
def lookup (t : FileTree) (path : String) : Except SystemError Node := do
  let p ← Path.ofString path
  let l ← t.locate p
  match t.get? l with
  | none => .error .notFound
  | some .directory => .ok .directory
  | some n => if p.asDirectory then .error .notDirectory else .ok n

/-- The path can be followed to an entry of any kind. -/
def contains (t : FileTree) (path : String) : Bool :=
  (t.lookup path).toOption.isSome

/-- The content of a file. -/
def read (t : FileTree) (path : String) : Except SystemError (List UInt8) := do
  match ← t.lookup path with
  | .file content => .ok content
  | .directory => .error .isDirectory
  | .socket => .error .noDevice

/-- The location at which a file of the given path can be written.  The last name of
a path that asks for a directory is not looked up. -/
def target (t : FileTree) (path : String) : Except SystemError Location := do
  let p ← Path.ofString path
  if p.asDirectory then
    let _ ← t.locate { p with names := p.names.dropLast ++ ["."] }
    .error .isDirectory
  else
    let l ← t.locate p
    match t.get? l with
    | some .directory => .error .isDirectory
    | some .socket => .error .noDevice
    | _ => .ok l

/-- Creates a file, or replaces the content of an existing one. -/
def replace (t : FileTree) (path : String) (content : List UInt8) :
    Except SystemError FileTree :=
  (t.target path).map fun l => t.set l (.file content)

end FileTree

end BenchCharts
