import MigrationSquash.Run
import MigrationSquash.Script.Program

/-!
# The tool that generates scripts

How the tool is called and what its end means.
-/

set_option autoImplicit false

namespace MigrationSquash.Script

/-- What a program came to that was run. -/
structure Ending where
  status : ExitStatus
  output : Bytes
  complaints : Bytes
  deriving DecidableEq, Inhabited, Repr

/-- Runs a file that runs itself and waits for its end.  The program may change the tree. -/
abbrev Runner := Invocation → FileTree → Ending × FileTree

def defaultProgram : Text := "dotnet".toList

/-- The arguments for one script.  The project has been built before. -/
def toolArguments (request : ScriptRequest) : List Text :=
  ["ef".toList, "migrations".toList, "script".toList, request.base, request.last,
    "--project".toList, request.project, "--no-build".toList]

/-- What the end of the tool says about the script. -/
def scriptOfEnding (request : ScriptRequest) (ending : Ending) : Except ToolFailure Text :=
  if ending.status = .code 0 then
    let script := Text.decodeUtf8Lossy ending.output
    if Text.isBlankText script then .error (.silent request.base request.last)
    else .ok script
  else
    .error (.exited request.base request.last ending.status
      (Text.decodeUtf8Lossy ending.complaints))

/-- The scripts that a program generates, which is looked up in the given folders. -/
def ofTool (folders : List Path) (runner : Runner) (program : Text) : ScriptSource :=
  fun request tree =>
    match Invocation.of tree folders program (toolArguments request) with
    | .error error => (.error (.notStarted program error), tree)
    | .ok invocation =>
        let (ending, after) := runner invocation tree
        (scriptOfEnding request ending, after)

end MigrationSquash.Script
