import MigrationSquash.Migration.Directory
import MigrationSquash.Project
import MigrationSquash.Script.Sanitize

/-!
# Conversion to scripts

Both procedures of a migration give way to the scripts that were generated from them.
Nothing is written unless both scripts are there.
-/

set_option autoImplicit false

namespace MigrationSquash

/-- What became of the conversion of a migration. -/
inductive Conversion where
  | notNeeded
  | converted
  | skipped (reason : Text)
  deriving DecidableEq, Repr

namespace Conversion

def describe : Conversion → Text
  | notNeeded => "kept as C#".toList
  | converted => "converted to SQL".toList
  | skipped reason => "kept as C# (".toList ++ reason ++ [')']

/-- Where scripts come from and which bookkeeping they contain. -/
structure Settings where
  project : Option Path
  historyTable : Text
  verbose : Bool
  deriving DecidableEq, Repr

/-- Asks for the script of a procedure and leaves out the bookkeeping. -/
def script (scripts : ScriptSource) (historyTable : Text) (range : ScriptRange) (project : Path)
    (procedure : Procedure) : Run (Except Failure Text) := do
  let (base, last) := range.endpoints procedure
  let raw ← Run.generate scripts ⟨base, last, project⟩
  return raw.map (Script.sanitize historyTable)

/-- The lines with a script as the body of each procedure. -/
def replaceBoth (lines : List Text) (up down : Text) : List Text :=
  Code.replace .down (Code.replace .up lines (Script.toBody up)) (Script.toBody down)

/-- The lines with generated scripts as the bodies, if both were generated. -/
def convertLines (scripts : ScriptSource) (historyTable : Text) (range : ScriptRange)
    (project : Path) (lines : List Text) : Run (Except Failure (List Text)) := do
  match ← script scripts historyTable range project .up with
  | .error failure => return .error failure
  | .ok up =>
      match ← script scripts historyTable range project .down with
      | .error failure => return .error failure
      | .ok down => return .ok (replaceBoth lines up down)

/-- The project file that was given, or the one that belongs to the directory. -/
def projectOf (settings : Settings) (directory : Path) : Run (Except Failure Path) :=
  match settings.project with
  | some project => pure (.ok project)
  | none => Run.look (Project.find · directory)

/-- Warns that a migration is kept, and says why. -/
def keep (id : MigrationId) (failure : Failure) : Run Conversion := do
  Run.warn (failure.message ++ "; leaving ".toList ++ id.toText ++ " as C#".toList)
  return .skipped failure.message

/-- Writes a migration with the given lines, converted.  Without a project or a script
the file stays as it is. -/
def convert (scripts : ScriptSource) (settings : Settings) (migration : StoredMigration)
    (range : ScriptRange) (lines : List Text) : Run Conversion := do
  let directory := (Path.parent? migration.path).getD ['.']
  match ← projectOf settings directory with
  | .error failure => keep migration.id failure
  | .ok project =>
      Run.sayIf settings.verbose ("Generating SQL ".toList ++ range.base ++ " -> ".toList ++
        range.last ++ " with ".toList ++ project)
      match ← convertLines scripts settings.historyTable range project lines with
      | .error failure => keep migration.id failure
      | .ok newLines =>
          Run.writeSource migration.path (migration.source.withLines newLines)
          Run.sayIf settings.verbose
            ("Converted ".toList ++ migration.id.toText ++ " to SQL".toList)
          return .converted

end Conversion

/-- Which migration of a directory to convert; without a name it is the newest. -/
structure ConvertOptions where
  directory : Path
  migration : Option Text
  settings : Conversion.Settings
  deriving DecidableEq, Repr

inductive ConvertOutcome where
  | nothingToProcess
  | finished (migration : Path) (conversion : Conversion)
  deriving DecidableEq, Repr

/-- Says that no migration was chosen. -/
def reportNoMigration (options : ConvertOptions) : Run Unit :=
  match options.migration with
  | some name =>
      Run.warn ("No migration matching '".toList ++ name ++ "' in ".toList ++ options.directory)
  | none =>
      Run.sayIf options.settings.verbose ("No migrations found in ".toList ++ options.directory)

/-- Converts one migration of a directory. -/
def convertMigration (scripts : ScriptSource) (options : ConvertOptions) :
    Run ConvertOutcome := do
  let all ← Directory.list options.directory
  let chosen :=
    match options.migration with
    | some name => Catalog.find? all name
    | none => all.getLast?
  match chosen with
  | none =>
      reportNoMigration options
      return .nothingToProcess
  | some file =>
      Run.sayIf options.settings.verbose
        ("Converting ".toList ++ file.id.toText ++ " to SQL".toList)
      let stored ← Directory.load file
      let range := ScriptRange.ofListing all stored.id stored.id
      let conversion ←
        Conversion.convert scripts options.settings stored range stored.source.lines
      return .finished stored.path conversion

end MigrationSquash
