import MigrationSquash.Text.Basic

/-!
# Errors of the file system

Why an operation on files did not happen, and how that is said.
-/

set_option autoImplicit false

namespace MigrationSquash

inductive FileError where
  | notFound
  | permissionDenied
  | busy
  | notDirectory
  | isDirectory
  | invalidArgument
  | nameTooLong
  | notEmpty
  | tooManyLinks
  | notExecutableFormat
  | argumentTooLong
  | zeroInPath
  | zeroInArgument
  | undecodable
  deriving DecidableEq, Repr

namespace FileError

/-- What went wrong. -/
def description : FileError → Text
  | notFound => "No such file or directory".toList
  | permissionDenied => "Permission denied".toList
  | busy => "Device or resource busy".toList
  | notDirectory => "Not a directory".toList
  | isDirectory => "Is a directory".toList
  | invalidArgument => "Invalid argument".toList
  | nameTooLong => "File name too long".toList
  | notEmpty => "Directory not empty".toList
  | tooManyLinks => "Too many levels of symbolic links".toList
  | notExecutableFormat => "Exec format error".toList
  | argumentTooLong => "Argument list too long".toList
  | zeroInPath => "file name contained an unexpected NUL byte".toList
  | zeroInArgument => "nul byte found in provided data".toList
  | undecodable => "File contains invalid characters".toList

/-- The number of an error that the system reports. -/
def number? : FileError → Option Nat
  | notFound => some 2
  | argumentTooLong => some 7
  | notExecutableFormat => some 8
  | permissionDenied => some 13
  | busy => some 16
  | notDirectory => some 20
  | isDirectory => some 21
  | invalidArgument => some 22
  | nameTooLong => some 36
  | notEmpty => some 39
  | tooManyLinks => some 40
  | zeroInPath | zeroInArgument | undecodable => none

def message (error : FileError) : Text :=
  match error.number? with
  | some number =>
      error.description ++ " (os error ".toList ++ Nat.toDigits 10 number ++ [')']
  | none => error.description

end FileError

end MigrationSquash
