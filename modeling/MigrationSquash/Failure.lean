import MigrationSquash.Files.Error
import MigrationSquash.Files.Path
import MigrationSquash.Text.Blank

/-!
# Failures

Why a run did not end as it should, and the words for it.
-/

set_option autoImplicit false

namespace MigrationSquash

/-- How a tool ended. -/
inductive ExitStatus where
  | code (n : Nat)
  | signal (n : Nat)
  deriving DecidableEq, Inhabited, Repr

namespace ExitStatus

/-- The names of the signals, from number 1 on. -/
def signalNames : List Text := [
  "SIGHUP".toList, "SIGINT".toList, "SIGQUIT".toList, "SIGILL".toList, "SIGTRAP".toList,
  "SIGABRT".toList, "SIGBUS".toList, "SIGFPE".toList, "SIGKILL".toList, "SIGUSR1".toList,
  "SIGSEGV".toList, "SIGUSR2".toList, "SIGPIPE".toList, "SIGALRM".toList, "SIGTERM".toList,
  "SIGSTKFLT".toList, "SIGCHLD".toList, "SIGCONT".toList, "SIGSTOP".toList, "SIGTSTP".toList,
  "SIGTTIN".toList, "SIGTTOU".toList, "SIGURG".toList, "SIGXCPU".toList, "SIGXFSZ".toList,
  "SIGVTALRM".toList, "SIGPROF".toList, "SIGWINCH".toList, "SIGIO".toList, "SIGPWR".toList,
  "SIGSYS".toList]

def decimal (n : Nat) : Text := Nat.toDigits 10 n

def message : ExitStatus → Text
  | code n => "exit status: ".toList ++ decimal n
  | signal n =>
      let number := "signal: ".toList ++ decimal n
      match n with
      | 0 => number
      | index + 1 =>
          match signalNames[index]? with
          | some name => number ++ " (".toList ++ name ++ [')']
          | none => number

end ExitStatus

/-- Why a script was not generated. -/
inductive ToolFailure where
  | notStarted (program : Text) (error : FileError)
  | exited (base last : Text) (status : ExitStatus) (complaint : Text)
  | silent (base last : Text)
  | refused (reason : Text)
  deriving DecidableEq, Repr

/-- The words for the task that the tool had. -/
def ToolFailure.task (base last : Text) : Text :=
  "dotnet ef migrations script ".toList ++ base ++ ' ' :: last

def ToolFailure.message : ToolFailure → Text
  | notStarted program error =>
      "Failed to run ".toList ++ program ++ ": ".toList ++ error.message
  | exited base last status complaint =>
      task base last ++ " exited with ".toList ++ status.message ++ ": ".toList ++
        Text.trim complaint
  | silent base last => task base last ++ " produced no output".toList
  | refused reason => reason

/-- Why a run failed. -/
inductive Failure where
  | invalidDirectory (path : Path)
  | read (path : Path) (error : FileError)
  | write (path : Path) (error : FileError)
  | remove (path : Path) (error : FileError)
  | move (source target : Path) (error : FileError)
  | tool (failure : ToolFailure)
  | noProject (path : Path)
  deriving DecidableEq, Repr

namespace Failure

def message : Failure → Text
  | invalidDirectory path =>
      "Migrations directory does not exist or is not a directory: ".toList ++ path
  | read path _ => "Failed to read migration file: ".toList ++ path
  | write path _ => "Failed to write migration file: ".toList ++ path
  | remove path _ => "Failed to remove migration file: ".toList ++ path
  | move source target _ =>
      "Failed to move descriptor ".toList ++ source ++ " to ".toList ++ target
  | tool failure => "External tool failed: ".toList ++ failure.message
  | noProject path => "No project file found above ".toList ++ path

/-- The kind of a failure, in one word. -/
def kind : Failure → Text
  | invalidDirectory _ => "InvalidDirectory".toList
  | read _ _ => "FileRead".toList
  | write _ _ => "FileWrite".toList
  | remove _ _ => "FileRemove".toList
  | move _ _ _ => "FileRename".toList
  | tool _ => "ExternalTool".toList
  | noProject _ => "ProjectNotFound".toList

/-- The error of the file system behind the failure. -/
def fileError? : Failure → Option FileError
  | read _ error | write _ error | remove _ error | move _ _ error => some error
  | invalidDirectory _ | tool _ | noProject _ => none

end Failure

end MigrationSquash
