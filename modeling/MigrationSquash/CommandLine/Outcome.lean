import MigrationSquash.CommandLine.Arguments

/-!
# Outcomes of the command line

What the program prints and with which status it ends.
-/

set_option autoImplicit false

namespace MigrationSquash.CommandLine

structure Outcome where
  status : Nat
  output : Text
  complaints : Text
  deriving DecidableEq, Repr

def programVersion : Text := "rust-efsquash 0.1.0".toList

/-- Each line with a line feed at its end. -/
def printed (lines : List Text) : Text := lines.flatMap (· ++ ['\n'])

/-- What the program says about itself. -/
def helpText : Text := printed [
  about, [],
  "Commands:".toList,
  "  squash <DIR>          Merge a run of migrations into the oldest of them".toList,
  "  convert-to-sql <DIR>  Replace a migration's Up and Down with the SQL they generate".toList]

def Stop.outcome : Stop → Outcome
  | .usage error =>
      { status := 2
        output := []
        complaints := printed [error.message, [], "For more information, try '--help'.".toList] }
  | .help => ⟨0, helpText, []⟩
  | .version => ⟨0, printed [programVersion], []⟩

def describeSquash : SquashOutcome → Text
  | .nothingToProcess => "No migrations to squash.".toList
  | .squashed report =>
      "Squashed ".toList ++ Squash.decimal report.squashed.length ++
        " migrations into ".toList ++ report.primary ++ ": ".toList ++ report.conversion.describe

def describeConvert : ConvertOutcome → Text
  | .nothingToProcess => "No migration to convert.".toList
  | .finished migration conversion => migration ++ ": ".toList ++ conversion.describe

/-- Does what is asked for and says what came of it. -/
def perform (scripts : ScriptSource) : Request → Run Unit
  | .squash options => do
      let outcome ← squash scripts options
      Run.say (describeSquash outcome)
  | .convert options => do
      let outcome ← convertMigration scripts options
      Run.say (describeConvert outcome)

/-- The lines that report a failure and what caused it. -/
def failureLines (failure : Failure) : List Text :=
  ("Error: ".toList ++ failure.message) ::
    match failure.fileError? with
    | some error => [[], "Caused by:".toList, Text.indentStep ++ error.message]
    | none => []

/-- Runs a command line on a file tree. -/
def run (scripts : ScriptSource) (arguments : List Text) (tree : FileTree) : Outcome × FileTree :=
  match parse arguments with
  | .error stop => (stop.outcome, tree)
  | .ok request =>
      let (result, world) := perform scripts request (.ofTree tree)
      let output := printed world.output
      match result with
      | .ok _ => (⟨0, output, printed world.warnings⟩, world.tree)
      | .error failure =>
          (⟨1, output, printed (world.warnings ++ failureLines failure)⟩, world.tree)

end MigrationSquash.CommandLine
