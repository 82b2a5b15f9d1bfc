import MigrationSquash.CommandLine.Outcome
import MigrationSquash.Files.Change
import MigrationSquash.Script.Tool

/-!
# The program

Reads the part of the disk that a request is about into a file tree, runs the request on
the tree, and brings the disk to what the run left.  Nothing is decided here.  No program
is started from here, so the tool that generates scripts counts as not installed.
-/

set_option autoImplicit false

namespace MigrationSquash.Main

/-- The absolute place that a path is written for, with nothing resolved. -/
def writtenPlace (current : Place) (path : Path) : Place :=
  FileTree.startOf current path ++ FileTree.namesOf path

def toPath (place : Place) : String := String.ofList (FileTree.pathOf place)

def placeOf (path : String) : Place := FileTree.namesOf path.toList

/-- What is on disk at a place.  A link leads to the place that the disk resolves it to. -/
def nodeAt (place : Place) : IO (Option Node) := do
  let path := (← IO.currentDir) / toPath place
  try
    match (← path.symlinkMetadata).type with
    | .dir => return some .directory
    | .file =>
        let content ← IO.FS.readBinFile path
        return some (.file content.toList false)
    | .symlink =>
        let target ← try some <$> IO.FS.realPath path catch _ => pure none
        return some (.link ((target.map (·.toString.toList)).getD []))
    | .other => return none
  catch _ =>
    return none

/-- The names of the entries of a directory on disk. -/
def namesAt (place : Place) : IO (List Text) := do
  let path := (← IO.currentDir) / toPath place
  try
    let entries ← path.readDir
    return entries.toList.map (·.fileName.toList)
  catch _ =>
    return []

def record (tree : FileTree) (place : Place) : IO FileTree := do
  match ← nodeAt place with
  | some node => return tree.set place node
  | none => return tree

/-- Records the places on the way to a place. -/
def recordWay (tree : FileTree) (place : Place) : IO FileTree :=
  (List.range place.length).foldlM
    (fun tree count => record tree (place.take (count + 1))) tree

/-- Records the entries of a directory that are wanted. -/
def recordEntries (wanted : Text → Bool) (tree : FileTree) (place : Place) : IO FileTree := do
  let names ← namesAt place
  (names.filter wanted).foldlM (fun tree name => record tree (place ++ [name])) tree

/-- The tree around a directory: the ways to it, its entries, and the project files in and
above it. -/
def treeAround (directory : Path) : IO FileTree := do
  let current := placeOf (← IO.FS.realPath (← IO.currentDir)).toString
  let written := writtenPlace current directory
  let resolved ← try some <$> IO.FS.realPath (toPath written) catch _ => pure none
  let place := (resolved.map (placeOf ·.toString)).getD written
  let tree ← recordWay ⟨[], current⟩ current
  let tree ← recordWay tree written
  let tree ← recordWay tree place
  let tree ← recordEntries (fun _ => true) tree place
  (List.range place.length).foldlM
    (fun tree count => recordEntries (Text.endsWith Project.suffix) tree (place.take count)) tree

/-- The place where a link was before that is now somewhere else. -/
def origin? (before after : FileTree) (target : Path) : Option Place :=
  (before.nodes.map (·.1)).find? fun place =>
    before.node? place = some (.link target) && after.node? place = none

/-- Brings one place on disk from what it is in one tree to what it is in another one.
What is no longer at the place of a link that moved has been moved with it. -/
def restore (before after : FileTree) (place : Place) : IO Unit :=
  match before.node? place, after.node? place with
  | _, some (.file content _) => IO.FS.writeBinFile (toPath place) ⟨content.toArray⟩
  | _, some (.link target) =>
      match origin? before after target with
      | some old => IO.FS.rename (toPath old) (toPath place)
      | none => pure ()
  | some (.link target), none =>
      if after.nodes.any (·.2 = .link target) then pure () else IO.FS.removeFile (toPath place)
  | _, none => IO.FS.removeFile (toPath place)
  | _, some .directory => pure ()

/-- Brings the disk from one tree to another one. -/
def apply (before after : FileTree) : IO Unit := do
  for place in FileTree.changedPlaces before after do
    restore before after place

def directoryOf : CommandLine.Request → Path
  | .squash options => options.directory
  | .convert options => options.directory

/-- Nothing runs, because no program is looked up anywhere. -/
def runner : Script.Runner := fun _ tree => (⟨.code 1, [], []⟩, tree)

end MigrationSquash.Main

open MigrationSquash in
def main (arguments : List String) : IO UInt32 := do
  let words := arguments.map String.toList
  let tree ← match CommandLine.parse words with
    | .ok request => Main.treeAround (Main.directoryOf request)
    | .error _ => pure ⟨[], []⟩
  let scripts := Script.ofTool [] Main.runner Script.defaultProgram
  let (outcome, after) := CommandLine.run scripts words tree
  Main.apply tree after
  IO.print (String.ofList outcome.output)
  IO.eprint (String.ofList outcome.complaints)
  return outcome.status.toUInt32
