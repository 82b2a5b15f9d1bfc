import MigrationSquash.Files.Error
import MigrationSquash.Files.Path
import MigrationSquash.Text.Utf8

/-!
# File trees

Files, directories and symbolic links by the place where they are, and the operations on
them.  Main statements: what `set` writes is found at its place and changes no other place,
and what `erase` takes away is gone from its place and from no other one.
-/

set_option autoImplicit false

namespace MigrationSquash

/-- A place: the names on the way from the root to it, none of which is a link. -/
abbrev Place := List Text

inductive Node where
  | directory
  | file (content : Bytes) (executable : Bool)
  | link (target : Path)
  deriving DecidableEq, Repr

/-- Nodes by their places, and the place that relative paths start from. -/
structure FileTree where
  nodes : List (Place × Node)
  current : Place
  deriving DecidableEq, Repr

namespace FileTree

/-- What is at a place.  The root is a directory. -/
def node? (tree : FileTree) (place : Place) : Option Node :=
  if place = [] then some .directory else tree.nodes.lookup place

def eraseFrom (place : Place) : List (Place × Node) → List (Place × Node)
  | [] => []
  | (key, node) :: rest =>
      if key = place then eraseFrom place rest else (key, node) :: eraseFrom place rest

/-- The tree with another node at a place. -/
def set (tree : FileTree) (place : Place) (node : Node) : FileTree :=
  { tree with nodes := (place, node) :: eraseFrom place tree.nodes }

/-- The tree with nothing at a place. -/
def erase (tree : FileTree) (place : Place) : FileTree :=
  { tree with nodes := eraseFrom place tree.nodes }

theorem lookup_eraseFrom (place other : Place) (nodes : List (Place × Node)) :
    (eraseFrom place nodes).lookup other =
      if other = place then none else nodes.lookup other := by
  induction nodes with
  | nil => simp [eraseFrom]
  | cons entry rest inductionHypothesis =>
      obtain ⟨key, node⟩ := entry
      by_cases same : key = place
      · subst same
        by_cases asked : other = key
        · rw [eraseFrom, if_pos rfl, inductionHypothesis, if_pos asked, if_pos asked]
        · have differs : (other == key) = false := by simpa using asked
          simp [eraseFrom, inductionHypothesis, asked, List.lookup_cons, differs]
      · by_cases asked : other = key
        · subst asked
          simp [eraseFrom, same]
        · have differs : (other == key) = false := by simpa using asked
          simp [eraseFrom, same, List.lookup_cons, differs, inductionHypothesis]

theorem node?_set (tree : FileTree) (place other : Place) (node : Node)
    (inner : place ≠ []) :
    (tree.set place node).node? other = if other = place then some node else tree.node? other := by
  by_cases root : other = []
  · subst root
    simp [node?, inner.symm]
  · by_cases same : other = place
    · subst same
      simp [node?, set, root]
    · have differs : (other == place) = false := by simpa using same
      simp [node?, set, root, same, List.lookup_cons, differs, lookup_eraseFrom]

theorem node?_erase (tree : FileTree) (place other : Place) (inner : place ≠ []) :
    (tree.erase place).node? other = if other = place then none else tree.node? other := by
  by_cases root : other = []
  · subst root
    simp [node?, inner.symm]
  · simp [node?, erase, root, lookup_eraseFrom]

/-- How far a list of names leads without following a link: to a place, to an error, or
to a link and the names that are left. -/
inductive Walk where
  | place (place : Place)
  | failed (error : FileError)
  | link (directory : Place) (target : Path) (rest : List Text)
  deriving DecidableEq, Repr

/-- The longest name of an entry, in bytes. -/
def nameLimit : Nat := 255

/-- Walks along names from a directory.  The last name need not exist. -/
def walk (tree : FileTree) : Place → List Text → Walk
  | directory, [] => .place directory
  | directory, name :: rest =>
      if name = ['.'] then tree.walk directory rest
      else if name = ['.', '.'] then tree.walk directory.dropLast rest
      else if nameLimit < Text.width name then .failed .nameTooLong
      else
        let place := directory ++ [name]
        match tree.node? place with
        | none => if rest.isEmpty then .place place else .failed .notFound
        | some .directory => tree.walk place rest
        | some (.file _ _) => if rest.isEmpty then .place place else .failed .notDirectory
        | some (.link target) => .link directory target rest

/-- The names on the way that a path describes.  A slash at its end means the directory
itself. -/
def namesOf (path : Path) : List Text :=
  let names := (Path.segments path).filter (· ≠ [])
  if !names.isEmpty && Text.endsWith ['/'] path then names ++ [['.']] else names

/-- Where a path starts from, seen from a directory. -/
def startOf (directory : Place) (path : Path) : Place :=
  if Path.isAbsolute path then [] else directory

/-- Walks along names and through at most `links` links. -/
def resolveFrom (tree : FileTree) : Nat → Place → List Text → Except FileError Place
  | links, directory, names =>
      match tree.walk directory names with
      | .place place => .ok place
      | .failed error => .error error
      | .link base target rest =>
          match links with
          | 0 => .error .tooManyLinks
          | links + 1 =>
              if target = [] then .error .notFound
              else tree.resolveFrom links (startOf base target) (namesOf target ++ rest)

/-- How many links a path may lead through. -/
def linkLimit : Nat := 40

/-- The longest path, in bytes. -/
def pathLimit : Nat := 4095

/-- Refuses a path that can lead nowhere. -/
def checkPath (path : Path) : Except FileError Unit :=
  if path.any (· == '\x00') then .error .zeroInPath
  else if path = [] then .error .notFound
  else if pathLimit < Text.width path then .error .nameTooLong
  else .ok ()

/-- The place that a path leads to, which need not exist in its directory. -/
def resolve (tree : FileTree) (path : Path) : Except FileError Place := do
  checkPath path
  tree.resolveFrom linkLimit (startOf tree.current path) (namesOf path)

/-- The place of the entry that a path names.  The entry need not exist, and a link there is
not followed.  A path whose last name is a dot or two names no entry and fails with
`unnamed`. -/
def entryPlace (tree : FileTree) (unnamed : FileError) (path : Path) :
    Except FileError Place := do
  checkPath path
  let names := (Path.segments path).filter (· ≠ [])
  let name := names.getLast?.getD ['.']
  let directory ←
    tree.resolveFrom linkLimit (startOf tree.current path) (names.dropLast ++ [['.']])
  if name = ['.'] || name = ['.', '.'] then .error unnamed
  else if nameLimit < Text.width name then .error .nameTooLong
  else .ok (directory ++ [name])

/-- The node that a path leads to. -/
def find? (tree : FileTree) (path : Path) : Option Node :=
  match tree.resolve path with
  | .ok place => tree.node? place
  | .error _ => none

def isDirectory (tree : FileTree) (path : Path) : Bool := tree.find? path = some .directory

def isFile (tree : FileTree) (path : Path) : Bool :=
  match tree.find? path with
  | some (.file _ _) => true
  | _ => false

def pathExists (tree : FileTree) (path : Path) : Bool := (tree.find? path).isSome

/-- The text of a place as an absolute path. -/
def pathOf : Place → Path
  | [] => ['/']
  | place => place.flatMap ('/' :: ·)

/-- The place of an existing file or directory, however long the path to it is. -/
def canonicalPlace (tree : FileTree) (path : Path) : Except FileError Place :=
  if path = [] then .error .notFound
  else do
    let place ← tree.resolveFrom linkLimit (startOf tree.current path) (namesOf path)
    if (tree.node? place).isSome then .ok place else .error .notFound

def read (tree : FileTree) (path : Path) : Except FileError Bytes := do
  let place ← tree.resolve path
  match tree.node? place with
  | some (.file content _) => .ok content
  | some .directory => .error .isDirectory
  | _ => .error .notFound

/-- The tree with other content in a file, which is made if it is not there. -/
def write (tree : FileTree) (path : Path) (content : Bytes) : Except FileError FileTree := do
  let place ← tree.resolve path
  match tree.node? place with
  | some .directory => .error .isDirectory
  | some (.file _ executable) => .ok (tree.set place (.file content executable))
  | _ => .ok (tree.set place (.file content false))

/-- Whether a path can only mean a directory. -/
def endsWithSlash (path : Path) : Bool := Text.endsWith ['/'] path

/-- The tree without a file or a link. -/
def remove (tree : FileTree) (path : Path) : Except FileError FileTree := do
  let place ← tree.entryPlace .isDirectory path
  match tree.node? place with
  | none => .error .notFound
  | some .directory => .error .isDirectory
  | some _ => if endsWithSlash path then .error .notDirectory else .ok (tree.erase place)

/-- Whether something lies below a place. -/
def isInside (outer place : Place) : Bool :=
  outer.isPrefixOf place && outer.length < place.length

/-- The tree with what is at `source` and below it at `target`. -/
def move (tree : FileTree) (source target : Place) : FileTree :=
  { tree with
    nodes := (eraseFrom target tree.nodes).map fun (place, node) =>
      if source.isPrefixOf place then (target ++ place.drop source.length, node)
      else (place, node) }

/-- The tree with a directory at another place, where at most an empty directory is. -/
def moveDirectory (tree : FileTree) (source target : Place) : Except FileError FileTree :=
  if isInside source target then .error .invalidArgument
  else
    match tree.node? target with
    | none => .ok (tree.move source target)
    | some .directory =>
        if tree.nodes.any fun entry => isInside target entry.1 then .error .notEmpty
        else .ok (tree.move source target)
    | some _ => .error .notDirectory

/-- The tree with a file or a link at another place, where no directory is. -/
def moveFile (tree : FileTree) (source target : Place) : Except FileError FileTree :=
  if isInside target source then .error .notEmpty
  else if tree.node? target = some .directory then .error .isDirectory
  else .ok (tree.move source target)

/-- The tree with a file, a link or a directory under another path, in place of a file,
a link or an empty directory that is there. -/
def rename (tree : FileTree) (source target : Path) : Except FileError FileTree := do
  let sourcePlace ← tree.entryPlace .busy source
  let targetPlace ← tree.entryPlace .busy target
  match tree.node? sourcePlace with
  | none => .error .notFound
  | some .directory =>
      if sourcePlace = targetPlace then .ok tree else tree.moveDirectory sourcePlace targetPlace
  | some _ =>
      if endsWithSlash source || endsWithSlash target then .error .notDirectory
      else if sourcePlace = targetPlace then .ok tree
      else tree.moveFile sourcePlace targetPlace

/-- Whether the place is that of an entry of the directory. -/
def isEntryOf (directory place : Place) : Bool := place.dropLast = directory && place ≠ []

/-- The entries of the directory at a place: names and nodes, in the order of the names. -/
def entriesAt (tree : FileTree) (directory : Place) : List (Text × Node) :=
  let entries := tree.nodes.filterMap fun (place, node) =>
    if isEntryOf directory place then place.getLast?.map (·, node) else none
  entries.mergeSort fun left right => !decide (right.1 < left.1)

/-- The entries of the directory that a path leads to. -/
def entries (tree : FileTree) (path : Path) : List (Text × Node) :=
  match tree.resolve path with
  | .ok place => if tree.node? place = some .directory then tree.entriesAt place else []
  | .error _ => []

end FileTree

end MigrationSquash
