import MigrationSquash.Migration.Catalog
import MigrationSquash.Migration.Merge
import MigrationSquash.Run

/-!
# Migrations on disk

Listing the migrations of a directory, loading them, and giving a designer file to
another migration.
-/

set_option autoImplicit false

namespace MigrationSquash

/-- A migration that was loaded from its file. -/
structure StoredMigration where
  file : MigrationFile
  source : Source
  deriving DecidableEq, Repr

def StoredMigration.id (stored : StoredMigration) : MigrationId := stored.file.id

def StoredMigration.path (stored : StoredMigration) : Path := stored.file.path

def StoredMigration.toMigration (stored : StoredMigration) : Migration :=
  ⟨stored.file.id, stored.source⟩

/-- Migrations that become one: the oldest stays, and the others are merged into it. -/
structure Batch where
  primary : StoredMigration
  subsumed : List StoredMigration
  deriving DecidableEq, Repr

namespace Batch

def all (batch : Batch) : List StoredMigration := batch.primary :: batch.subsumed

def newest (batch : Batch) : StoredMigration := batch.subsumed.getLast?.getD batch.primary

def ofList? : List StoredMigration → Option Batch
  | [] => none
  | primary :: subsumed => some ⟨primary, subsumed⟩

end Batch

namespace Directory

def isDirectory (tree : FileTree) (path : Path) : Bool := path ≠ [] && tree.isDirectory path

/-- The migration that an entry of the directory declares. -/
def migration? (tree : FileTree) (directory : Path) : Text × Node → Option MigrationFile
  | (name, .file _ _) =>
      (MigrationFile.idOfFileName? name).map fun id =>
        let designer := Path.join directory (Designer.fileName id)
        { id
          path := Path.join directory name
          designer := if tree.isFile designer then some designer else none }
  | _ => none

/-- The migrations in a directory, in the order of their file names. -/
def migrations (tree : FileTree) (directory : Path) : List MigrationFile :=
  (tree.entries directory).filterMap (migration? tree directory)

/-- Fails unless the path leads to a directory. -/
def require (path : Path) : Run Unit := do
  if ← Run.look (isDirectory · path) then pure () else Run.fail (.invalidDirectory path)

def list (directory : Path) : Run (List MigrationFile) := do
  require directory
  Run.look (migrations · directory)

def load (file : MigrationFile) : Run StoredMigration := do
  let source ← Run.readSource file.path
  return ⟨file, source⟩

def loadAll : List MigrationFile → Run (List StoredMigration)
  | [] => pure []
  | file :: rest => do
      let stored ← load file
      let others ← loadAll rest
      return stored :: others

/-- Removes what is at a path that leads to something. -/
def clear (path : Path) : Run Unit := do
  if ← Run.look (·.pathExists path) then Run.removeFile path else pure ()

/-- Moves a designer file to where that of another migration belongs and gives it the
identity of that migration.  What was there is replaced. -/
def adoptDesigner (source directory : Path) (id : MigrationId) : Run Path := do
  let target := Path.join directory (Designer.fileName id)
  if Path.same source target then
    pure ()
  else
    clear target
    Run.moveFile source target
  let designer ← Run.readSource target
  let retargeted := Designer.retarget (Text.joinLines designer.lines) id
  Run.writeSource target (designer.withLines (Text.lines retargeted))
  return target

end Directory

end MigrationSquash
