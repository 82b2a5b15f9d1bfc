import MigrationSquash.Failure
import MigrationSquash.Files.Tree
import MigrationSquash.Migration.Source

/-!
# Runs

A run reads and changes a file tree, writes lines of output and of warnings, and asks for
scripts.  What it did before it failed stays done.  A script is generated on the tree as the
run has left it so far, and the run goes on with the tree that comes back.

Reading and changing files can fail although the tree allows it.  What is refused in this way
belongs to the world that the run is in.
-/

set_option autoImplicit false

namespace MigrationSquash

/-- The script that leads from the state after `base` to the state after `last`. -/
structure ScriptRequest where
  base : Text
  last : Text
  project : Path
  deriving DecidableEq, Repr

/-- Generates scripts.  It reads the tree and may change it, also when it fails. -/
abbrev ScriptSource := ScriptRequest → FileTree → Except ToolFailure Text × FileTree

/-- What a run asks of the file system. -/
inductive FileRequest where
  | read (path : Path)
  | write (path : Path) (content : Bytes)
  | remove (path : Path)
  | rename (source target : Path)
  deriving DecidableEq, Repr

/-- The state of a run.  The refusals are the requests that the file system turns down for
reasons that no tree shows, such as a missing permission or a full disk. -/
structure World where
  tree : FileTree
  output : List Text
  warnings : List Text
  requests : List ScriptRequest
  refusals : List (FileRequest × FileError) := []
  deriving DecidableEq, Repr

namespace World

def ofTree (tree : FileTree) : World where
  tree
  output := []
  warnings := []
  requests := []

/-- What comes of a request: the answer that the tree gives, unless it is refused. -/
def answer {α : Type} (world : World) (request : FileRequest) (given : Except FileError α) :
    Except FileError α :=
  match world.refusals.lookup request with
  | some error => .error error
  | none => given

end World

def Run (α : Type) := World → Except Failure α × World

namespace Run

instance : Monad Run where
  pure value := fun world => (.ok value, world)
  bind step next := fun world =>
    match step world with
    | (.ok value, after) => next value after
    | (.error failure, after) => (.error failure, after)

def fail {α : Type} (failure : Failure) : Run α := fun world => (.error failure, world)

def ofExcept {α : Type} : Except Failure α → Run α
  | .ok value => pure value
  | .error failure => fail failure

/-- What the run finds in the tree. -/
def look {α : Type} (view : FileTree → α) : Run α := fun world => (.ok (view world.tree), world)

/-- Writes a line of output. -/
def say (line : Text) : Run Unit := fun world =>
  (.ok (), { world with output := world.output ++ [line] })

/-- Writes a line of output if details are wanted. -/
def sayIf (wanted : Bool) (line : Text) : Run Unit := if wanted then say line else pure ()

def warn (line : Text) : Run Unit := fun world =>
  (.ok (), { world with warnings := world.warnings ++ ["Warning: ".toList ++ line] })

/-- Changes the tree, or fails and leaves it as it is. -/
def change (request : FileRequest) (operation : FileTree → Except FileError FileTree)
    (failure : FileError → Failure) : Run Unit := fun world =>
  match world.answer request (operation world.tree) with
  | .ok tree => (.ok (), { world with tree })
  | .error error => (.error (failure error), world)

def readSource (path : Path) : Run Source := fun world =>
  match world.answer (.read path) (world.tree.read path) with
  | .error error => (.error (.read path error), world)
  | .ok bytes =>
      match Source.ofBytes? bytes with
      | some source => (.ok source, world)
      | none => (.error (.read path .undecodable), world)

def writeSource (path : Path) (source : Source) : Run Unit :=
  change (.write path source.toBytes) (·.write path source.toBytes) (.write path)

def removeFile (path : Path) : Run Unit := change (.remove path) (·.remove path) (.remove path)

def moveFile (source target : Path) : Run Unit :=
  change (.rename source target) (·.rename source target) (.move source target)

/-- Asks for a script. -/
def generate (scripts : ScriptSource) (request : ScriptRequest) : Run (Except Failure Text) :=
  fun world =>
    let (script, tree) := scripts request world.tree
    (.ok (script.mapError .tool), { world with tree, requests := world.requests ++ [request] })

end Run

end MigrationSquash
