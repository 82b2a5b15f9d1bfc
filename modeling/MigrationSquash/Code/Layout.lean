import MigrationSquash.Text.Blank
import MigrationSquash.Text.Lines
import MigrationSquash.Code.Scan

/-!
# Indentation of blocks

Moving a block of source lines to another depth.  A line that starts inside a verbatim
string is part of a literal and stays as it is.
-/

set_option autoImplicit false

namespace MigrationSquash.Code

/-- Writes `indent` before one line, which keeps nothing blank at its end. -/
def indentLine (indent : Text) : Carry × Text → Text
  | (.verbatim, line) => line
  | (_, line) => if Text.isBlankText line then [] else indent ++ Text.trimEnd line

/-- The lines of a text, each moved behind `indent`. -/
def indentBlock (s indent : Text) : List Text :=
  (withCarry .code (Text.lines s)).map (indentLine indent)

/-- The indentation of a line that counts for the common one. -/
def measuredIndent? : Carry × Text → Option Nat
  | (.verbatim, _) => none
  | (_, line) => if Text.isBlankText line then none else some (Text.indentation line).length

/-- Removes up to `common` blanks from the start of one line. -/
def dedentLine (common : Nat) : Carry × Text → Text
  | (.verbatim, line) => line
  | (_, line) =>
      if Text.isBlankText line then []
      else Text.trimEnd (line.drop (min common (Text.indentation line).length))

/-- Removes the indentation that the lines of a body share.

The body is trimmed, so its first line has lost its own; `firstIndent` is what that line
had, where it is known. -/
def dedentBody (body : Text) (firstIndent : Option Nat) : List Text :=
  match withCarry .code (Text.lines body) with
  | [] => []
  | first :: rest =>
      let measured := rest.filterMap measuredIndent? ++ firstIndent.toList
      dedentLine 0 first :: rest.map (dedentLine (measured.min?.getD 0))

end MigrationSquash.Code
