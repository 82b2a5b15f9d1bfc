import MigrationSquash.Conversion
import MigrationSquash.Hazard.Basic

/-!
# Squashing migrations

The selected migrations of a directory are merged into the oldest of them, and the others
are removed.  The designer file that is kept is that of the newest one.  Code that drops
what it renamed is converted to scripts.
-/

set_option autoImplicit false

namespace MigrationSquash

structure SquashOptions where
  directory : Path
  selection : Selection
  skipConversion : Bool
  settings : Conversion.Settings
  deriving DecidableEq, Repr

/-- What a squash did. -/
structure SquashReport where
  primary : Path
  designer : Option Path
  squashed : List MigrationId
  removed : List Path
  hazards : List Hazard
  conversion : Conversion
  deriving DecidableEq, Repr

inductive SquashOutcome where
  | nothingToProcess
  | squashed (report : SquashReport)
  deriving DecidableEq, Repr

namespace Squash

def decimal (n : Nat) : Text := ExitStatus.decimal n

/-- Warns if the target names none of the listed migrations. -/
def checkTarget (selection : Selection) (all : List MigrationFile) : Run Unit :=
  match selection.target with
  | some target =>
      if all.any (MigrationFile.isTarget target) then pure ()
      else Run.warn ("Target migration '".toList ++ Text.trim target ++
        "' not found; nothing selected".toList)
  | none => pure ()

/-- Keeps the newest designer file under the identity of the oldest migration. -/
def keepDesigner (options : SquashOptions) (batch : Batch) : Run (Option Path) :=
  match batch.newest.file.designer.or batch.primary.file.designer with
  | some source => do
      let target ← Directory.adoptDesigner source options.directory batch.primary.id
      Run.sayIf options.settings.verbose ("Descriptor: ".toList ++ target)
      return some target
  | none => do
      Run.warn ("No designer file found for ".toList ++ batch.primary.id.toText)
      return none

def warnAll : List Hazard → Run Unit
  | [] => pure ()
  | hazard :: rest => do
      Run.warn hazard.message
      warnAll rest

/-- Converts the merged migration if it needs it and may be converted. -/
def convertIfUnsafe (scripts : ScriptSource) (options : SquashOptions)
    (all : List MigrationFile) (batch : Batch) (lines : List Text) (hazards : List Hazard) :
    Run Conversion :=
  if hazards.isEmpty then
    pure .notNeeded
  else if options.skipConversion then do
    Run.warn "Rename-then-drop detected; SQL conversion skipped as requested".toList
    return .skipped "skipped by request".toList
  else
    let range := ScriptRange.ofListing all batch.primary.id batch.newest.id
    Conversion.convert scripts options.settings batch.primary range lines

def removeAll (verbose : Bool) : List Path → Run (List Path)
  | [] => pure []
  | path :: rest => do
      Run.removeFile path
      Run.sayIf verbose ("Removed ".toList ++ path)
      let others ← removeAll verbose rest
      return path :: others

/-- The files of a merged migration that are still there, without the designer file that
is kept. -/
def leftovers (kept : Option Path) (migration : StoredMigration) : Run (List Path) :=
  match migration.file.designer with
  | none => pure [migration.path]
  | some designer => do
      let isKept := kept.any (Path.same designer)
      if !isKept && (← Run.look (·.pathExists designer)) then
        return [migration.path, designer]
      else
        return [migration.path]

/-- Removes the files of merged migrations, one migration after the other. -/
def removeSubsumed (verbose : Bool) (kept : Option Path) :
    List StoredMigration → Run (List Path)
  | [] => pure []
  | migration :: rest => do
      let paths ← leftovers kept migration
      let removed ← removeAll verbose paths
      let others ← removeSubsumed verbose kept rest
      return removed ++ others

def saySelected (verbose : Bool) (all : List MigrationFile) (first last : MigrationId)
    (count : Nat) : Run Unit :=
  Run.sayIf verbose ("Selected ".toList ++ decimal count ++ " of ".toList ++
    decimal all.length ++ " migrations (".toList ++ first.toText ++ " .. ".toList ++
    last.toText ++ [')'])

def sayMerged (verbose : Bool) (migrations : List Migration) : Run Unit :=
  Run.sayIf verbose ("Merged ".toList ++
    decimal (mergedProcedure .up migrations).blocks.length ++ " Up and ".toList ++
    decimal (mergedProcedure .down migrations).blocks.length ++ " Down bodies".toList)

/-- Merges a batch and leaves one migration on disk.  The merged source is only written
once the designer file is in place. -/
def squashBatch (scripts : ScriptSource) (options : SquashOptions) (all : List MigrationFile)
    (batch : Batch) : Run SquashReport := do
  let verbose := options.settings.verbose
  let migrations := batch.all.map (·.toMigration)
  sayMerged verbose migrations
  let lines := mergeInto batch.primary.source.lines migrations
  let designer ← keepDesigner options batch
  Run.writeSource batch.primary.path (batch.primary.source.withLines lines)
  let hazards := Hazard.find (Text.joinLines lines)
  warnAll hazards
  let conversion ← convertIfUnsafe scripts options all batch lines hazards
  let removed ← removeSubsumed verbose designer batch.subsumed
  Run.sayIf verbose ("Squashed ".toList ++ decimal migrations.length ++
    " migrations into ".toList ++ batch.primary.path)
  return {
    primary := batch.primary.path
    designer
    squashed := migrations.map (·.id)
    removed
    hazards
    conversion }

end Squash

/-- Squashes the selected migrations of a directory. -/
def squash (scripts : ScriptSource) (options : SquashOptions) : Run SquashOutcome := do
  let verbose := options.settings.verbose
  Run.sayIf verbose ("Squashing migrations in: ".toList ++ options.directory)
  let all ← Directory.list options.directory
  let selected := options.selection.select all
  Squash.checkTarget options.selection all
  match selected with
  | [] =>
      Run.sayIf verbose "No migrations matched; nothing to squash".toList
      return .nothingToProcess
  | first :: _ =>
      let last := selected.getLast?.getD first
      Squash.saySelected verbose all first.id last.id selected.length
      let stored ← Directory.loadAll selected
      match Batch.ofList? stored with
      | none => return .nothingToProcess
      | some batch =>
          let report ← Squash.squashBatch scripts options all batch
          return .squashed report

end MigrationSquash
