import MigrationSquash.Files.Tree

/-!
# Programs

Which file a program's name stands for, and what runs when it is started.  A script names an
interpreter in its first line, of which only the first bytes are looked at; then this one is
started, with the path of the script among its arguments, and it may be a script as well.
Only a file with the header of an executable file runs itself.
-/

set_option autoImplicit false

namespace MigrationSquash.Script

/-- A file that runs itself, and its arguments, of which the first one is its name. -/
structure Invocation where
  program : Place
  arguments : List Text
  deriving DecidableEq, Repr

/-- The number in a field of a file, whose lowest byte comes first. -/
def fieldValue (content : Bytes) (position width : Nat) : Nat :=
  ((content.drop position).take width).foldr (fun byte high => byte.toNat + 256 * high) 0

/-- Whether a file runs itself.  Its header starts with a mark, says that this is a program and
for which machine, and leads to a table in the file of the parts to load. -/
def isExecutable (content : Bytes) : Bool :=
  let parts := fieldValue content 56 2
  [0x7F, 0x45, 0x4C, 0x46].isPrefixOf content &&
    [2, 3].contains (fieldValue content 16 2) &&
    fieldValue content 18 2 == 62 &&
    fieldValue content 54 2 == 56 &&
    1 ≤ parts && parts * 56 ≤ 0x10000 &&
    fieldValue content 32 8 + parts * 56 ≤ content.length

/-- A file that runs itself and consists of a header. -/
def bareProgram : Bytes :=
  [0x7F, 0x45, 0x4C, 0x46] ++ List.replicate 12 0 ++ [2, 0, 62, 0] ++ List.replicate 34 0 ++
    [56, 0, 1, 0, 0, 0, 0, 0, 0, 0]

theorem isExecutable_bareProgram : isExecutable bareProgram = true := by decide

/-- A space or a tab. -/
def isBlankByte (byte : UInt8) : Bool := byte == 0x20 || byte == 0x09

def dropBlankEnd (bytes : Bytes) : Bytes := (bytes.reverse.dropWhile isBlankByte).reverse

/-- How many bytes are looked at behind the mark that a script starts with. -/
def seenLimit : Nat := 254

/-- The line behind the mark of a script, which names its interpreter.  A line that is seen
whole, and that the file or a zero ends, is kept as it is.  Any other loses the blanks at its
end; it is refused if nothing is left, or if the name may go on unseen. -/
def interpreterLine? (content : Bytes) : Option Bytes :=
  let seen := content.take seenLimit
  let line := seen.takeWhile fun byte => byte ≠ 0x0A && byte ≠ 0
  let words := line.dropWhile isBlankByte
  let ends := seen[line.length]? == some 0x0A
  if !ends && line.length + 1 < seenLimit then some line
  else if words = [] || line.length = seenLimit && !words.any isBlankByte then none
  else some (dropBlankEnd (line.take (seenLimit - 1)))

/-- The interpreter that a script names, and the option that follows it there.  An empty name
means the working directory. -/
def interpreter? : Bytes → Option (Path × Option Text)
  | 0x23 :: 0x21 :: rest =>
      (interpreterLine? rest).map fun line =>
        let words := line.dropWhile isBlankByte
        let name := words.takeWhile (!isBlankByte ·)
        let after := words.drop name.length
        (if name = [] then ['.'] else Text.decodeUtf8Lossy name,
          if after = [] then none
          else some (Text.decodeUtf8Lossy (after.dropWhile isBlankByte)))
  | _ => none

/-- No argument has as many bytes as this. -/
def argumentLimit : Nat := 0x20000

/-- What runs when the file at a path is started, if at most the given number of files are
looked at: scripts, and the one that runs itself. -/
def invocationAt (tree : FileTree) : Nat → Path → List Text → Except FileError Invocation
  | files, path, arguments => do
      let place ← tree.resolve path
      match tree.node? place, files with
      | none, _ => .error .notFound
      | some (.file _ true), 0 => .error .tooManyLinks
      | some (.file content true), files + 1 =>
          if arguments.any (argumentLimit ≤ Text.width ·) then .error .argumentTooLong
          else if isExecutable content then .ok ⟨place, arguments⟩
          else
            match interpreter? content with
            | none => .error .notExecutableFormat
            | some (interpreter, option) =>
                invocationAt tree files interpreter
                  (interpreter :: option.toList ++ path :: arguments.drop 1)
      | some _, _ => .error .permissionDenied

/-- How many files are looked at until one runs itself. -/
def fileLimit : Nat := 6

/-- The first invocation that succeeds.  One that fails because there is no such program, or
because it may not be started, is passed over; if all are, a program that may not be started
counts as found. -/
def firstInvocation (attempt : Path → Except FileError Invocation) :
    FileError → List Path → Except FileError Invocation
  | failure, [] => .error failure
  | failure, folder :: rest =>
      match attempt folder with
      | .ok invocation => .ok invocation
      | .error error =>
          if [.notFound, .notDirectory, .permissionDenied].contains error then
            firstInvocation attempt (if failure = .permissionDenied then failure else error) rest
          else .error error

/-- What runs when a program is started with arguments.  A name without a slash is looked up
in the folders. -/
def Invocation.of (tree : FileTree) (folders : List Path) (program : Text)
    (arguments : List Text) : Except FileError Invocation :=
  let words := program :: arguments
  if words.any (·.any (· == '\x00')) then .error .zeroInArgument
  else if program.any (· == '/') then invocationAt tree fileLimit program words
  else if program = [] then .error .notFound
  else
    firstInvocation (fun folder => invocationAt tree fileLimit (Path.join folder program) words)
      .notFound folders

end MigrationSquash.Script
