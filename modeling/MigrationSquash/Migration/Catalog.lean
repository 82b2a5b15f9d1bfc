import MigrationSquash.Code.Procedure
import MigrationSquash.Files.Path
import MigrationSquash.Migration.Designer

/-!
# Listed migrations

The migrations of a directory in the order of their file names, and the choice of those
that a request means.
-/

set_option autoImplicit false

namespace MigrationSquash

/-- A migration that a directory holds: where it is and where its designer file is. -/
structure MigrationFile where
  id : MigrationId
  path : Path
  designer : Option Path
  deriving DecidableEq, Repr

namespace MigrationFile

def sourceSuffix : Text := ".cs".toList

def snapshotSuffix : Text := "ModelSnapshot.cs".toList

def fileName (file : MigrationFile) : Text := (Path.fileName? file.path).getD []

/-- The identity in the name of a source file; designer files and model snapshots are
not migrations. -/
def idOfFileName? (name : Text) : Option MigrationId :=
  if Text.endsWith Designer.suffix name || Text.endsWith snapshotSuffix name then none
  else (Text.before? sourceSuffix name).bind MigrationId.parse?

/-- Whether the file is what `target` names: its name contains that text. -/
def isTarget (target : Text) (file : MigrationFile) : Bool :=
  Text.containsIgnoringCase file.fileName (Text.trim target)

end MigrationFile

/-- Which migrations are meant: those of one year, and those before the first one that
the target names. -/
structure Selection where
  year : Option Text
  target : Option Text
  deriving DecidableEq, Repr

namespace Selection

def acceptsYear (selection : Selection) (file : MigrationFile) : Bool :=
  selection.year.all fun year => Text.sameIgnoringCase file.id.year (Text.trim year)

/-- The migrations that are meant.  A target that names none of them selects nothing. -/
def select (selection : Selection) (files : List MigrationFile) : List MigrationFile :=
  let ofYear := files.filter selection.acceptsYear
  match selection.target with
  | none => ofYear
  | some target =>
      match ofYear.findIdx? (MigrationFile.isTarget target) with
      | some stop => ofYear.take stop
      | none => []

end Selection

namespace Catalog

/-- The migration listed directly before the first one with the identity. -/
def predecessor? (id : MigrationId) : List MigrationFile → Option MigrationId
  | previous :: file :: rest =>
      if previous.id = id then none
      else if file.id = id then some previous.id
      else predecessor? id (file :: rest)
  | _ => none

/-- The migration that a name means: its whole identity, else its name, else a part of
its file name. -/
def find? (files : List MigrationFile) (name : Text) : Option MigrationFile :=
  let wanted := Text.dropEndings MigrationFile.sourceSuffix (Text.trim name)
  (files.find? fun file => Text.sameIgnoringCase file.id.toText wanted).or <|
    (files.find? fun file => Text.sameIgnoringCase file.id.name wanted).or <|
      files.find? fun file => Text.containsIgnoringCase file.fileName wanted

end Catalog

/-- The migrations that a script covers: those after `base` up to and including `last`. -/
structure ScriptRange where
  base : Text
  last : Text
  deriving DecidableEq, Repr

namespace ScriptRange

/-- What stands for the state before every migration. -/
def emptyDatabase : Text := ['0']

/-- The range from `first` to `last` within a listing. -/
def ofListing (files : List MigrationFile) (first last : MigrationId) : ScriptRange :=
  { base := ((Catalog.predecessor? first files).map (·.toText)).getD emptyDatabase
    last := last.toText }

/-- Where the script of a procedure starts and ends: reverting runs backwards. -/
def endpoints (range : ScriptRange) : Procedure → Text × Text
  | .up => (range.base, range.last)
  | .down => (range.last, range.base)

end ScriptRange

end MigrationSquash
