import MigrationSquash.Code.Import.Placement
import MigrationSquash.Code.Region
import MigrationSquash.Migration.Id
import MigrationSquash.Migration.Source

/-!
# Merging migrations

The bodies of a procedure in several migrations become one body, in which each stands in
a block of its own: names declared in two of them stay apart.  Migrations are applied
oldest first and reverted newest first.
-/

set_option autoImplicit false

namespace MigrationSquash

/-- A migration and the source that declares it. -/
structure Migration where
  id : MigrationId
  source : Source
  deriving DecidableEq, Repr

inductive MergeOrder where
  | chronological
  | reverseChronological
  deriving DecidableEq, Repr

/-- The order in which bodies of the procedure have to run. -/
def Procedure.mergeOrder : Procedure → MergeOrder
  | .up => .chronological
  | .down => .reverseChronological

/-- Migrations given in chronological order, in another order. -/
def MergeOrder.arrange {α : Type} : MergeOrder → List α → List α
  | .chronological, items => items
  | .reverseChronological, items => items.reverse

/-- The body of one migration inside the block that was made of it. -/
structure Block where
  source : MigrationId
  text : Text
  deriving DecidableEq, Repr

/-- The comment on top of a block says where it comes from. -/
def provenance (id : MigrationId) : Text := "// Squashed from ".toList ++ id.toText

/-- Puts a body into a block of its own. -/
def Block.wrap (id : MigrationId) (region : Code.Region) : Block :=
  let body := Text.joinLines (Code.dedentBody region.text region.indent)
  { source := id
    text := Text.joinLines (['{'] :: (Text.indentStep ++ provenance id) ::
      Code.indentBlock body Text.indentStep ++ [['}']]) }

/-- The block of a migration, unless the procedure is missing in it or empty. -/
def Migration.block? (procedure : Procedure) (migration : Migration) : Option Block :=
  let region := Code.extract procedure migration.source.lines
  if region.isEmpty then none else some (.wrap migration.id region)

def Migration.imports (migration : Migration) : Code.ImportSet :=
  .ofLines migration.source.lines

/-- The blocks of one procedure and the imports of all the migrations. -/
structure Aggregate where
  blocks : List Block
  imports : Code.ImportSet

/-- The body that runs the blocks one after the other. -/
def Aggregate.text (aggregate : Aggregate) : Text :=
  Text.join ['\n', '\n'] (aggregate.blocks.map (·.text))

/-- Merges one procedure of migrations that are given in chronological order.  A
migration without a block still contributes its imports. -/
def aggregate (procedure : Procedure) (order : MergeOrder) (migrations : List Migration) :
    Aggregate :=
  let arranged := order.arrange migrations
  { blocks := arranged.filterMap (·.block? procedure)
    imports := (arranged.map (·.imports)).foldl .union .empty }

/-- Merges one procedure in the order in which its bodies have to run. -/
def mergedProcedure (procedure : Procedure) (migrations : List Migration) : Aggregate :=
  aggregate procedure procedure.mergeOrder migrations

/-- The lines with the merged body of one procedure. -/
def replaceMerged (procedure : Procedure) (migrations : List Migration)
    (lines : List Text) : List Text :=
  Code.replace procedure lines (mergedProcedure procedure migrations).text

/-- The lines of a migration that all the given ones are merged into. -/
def mergeInto (lines : List Text) (migrations : List Migration) : List Text :=
  let imports := (mergedProcedure .up migrations).imports.union
    (mergedProcedure .down migrations).imports
  Code.placeImports (replaceMerged .down migrations (replaceMerged .up migrations lines)) imports

end MigrationSquash
