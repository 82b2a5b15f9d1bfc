import MigrationSquash.Failure
import MigrationSquash.Files.Tree

/-!
# The project of a directory

The project file that migrations belong to stands in their directory or in the nearest
one above it.
-/

set_option autoImplicit false

namespace MigrationSquash.Project

def suffix : Text := ".csproj".toList

/-- A path and the paths above it, of which there are at most as many as characters. -/
def upwardsFrom : Nat → Path → List Path
  | 0, path => [path]
  | limit + 1, path =>
      match Path.parent? path with
      | some parent => path :: upwardsFrom limit parent
      | none => [path]

/-- A path and the paths above it. -/
def upwards (path : Path) : List Path := upwardsFrom path.length path

/-- The path of an entry, where the current directory is left out. -/
def entryPath (directory entry : Path) : Path :=
  if Path.components directory = [.current] then entry else Path.join directory entry

/-- The path one segment further on, if the search finds it.  Dots only follow a directory,
and an empty segment after nothing but the current directory leads nowhere. -/
def stepInto? (tree : FileTree) (directory segment : Path) : Option Path :=
  let next := entryPath directory segment
  let isDots := segment = ['.'] || segment = ['.', '.']
  if (if isDots then tree.isDirectory directory else tree.pathExists next) then some next
  else none

/-- The directory in which entries are looked up, if the search finds it; a path that starts
with the current directory loses it. -/
def searched? (tree : FileTree) (directory : Path) : Option Path :=
  if Path.isAbsolute directory then
    (Path.segments (directory.drop 1)).foldlM (stepInto? tree) ['/']
  else
    (Path.segments directory).foldlM (stepInto? tree) ['.']

/-- The project files in a directory, by their names. -/
def candidates (tree : FileTree) (directory : Path) : List (Text × Path) :=
  match searched? tree directory with
  | none => []
  | some place =>
      ((tree.entries place).map fun (name, _) => (name, entryPath place name)).filter
        fun (name, path) => Text.endsWith suffix name && tree.isFile path

/-- The project file of a directory: the first one that is not for tests, or the first. -/
def choose? (files : List (Text × Path)) : Option Path :=
  let isForTests := fun (file : Text × Path) => Text.containsIgnoringCase file.1 "tests".toList
  ((files.find? (!isForTests ·)).or files.head?).map (·.2)

/-- The absolute form of a path that exists, and else the path itself. -/
def startOfSearch (tree : FileTree) (start : Path) : Path :=
  match tree.canonicalPlace start with
  | .ok place => FileTree.pathOf place
  | .error _ => start

/-- The project file at or above a path. -/
def find (tree : FileTree) (start : Path) : Except Failure Path :=
  let directories := (upwards (startOfSearch tree start)).filter (· ≠ [])
  match directories.findSome? fun directory => choose? (candidates tree directory) with
  | some project => .ok project
  | none => .error (.noProject start)

end MigrationSquash.Project
