import MigrationSquash.Text.Basic

/-!
# Structural braces

Which braces of a line of source code open and close blocks.  A brace inside a character
literal, a string, a verbatim string or a comment is data.  Only block comments and
verbatim strings reach over the end of a line, so a scan of one line takes what the line
before left open and says what it leaves open itself.
-/

set_option autoImplicit false

namespace MigrationSquash.Code

/-- What is still open at the end of a line. -/
inductive Carry where
  | code
  | blockComment
  | verbatim
  deriving DecidableEq, Repr

inductive BraceKind where
  | opening
  | closing
  deriving DecidableEq, Repr

/-- A structural brace, at a distance in bytes from the start of its line. -/
structure Brace where
  offset : Nat
  kind : BraceKind
  deriving DecidableEq, Repr

structure LineScan where
  braces : List Brace
  carry : Carry
  deriving DecidableEq, Repr

/-- What a character of a line belongs to. -/
inductive Context where
  | code
  | character
  | string
  | verbatim
  | lineComment
  | blockComment
  deriving DecidableEq, Repr

def Carry.context : Carry → Context
  | .code => .code
  | .blockComment => .blockComment
  | .verbatim => .verbatim

/-- A literal or a line comment that does not reach over lines ends with its line. -/
def Context.carry : Context → Carry
  | .blockComment => .blockComment
  | .verbatim => .verbatim
  | .code | .character | .string | .lineComment => .code

def LineScan.cons (brace : Brace) (scan : LineScan) : LineScan :=
  { scan with braces := brace :: scan.braces }

/-- Scans the rest of a line that starts `offset` bytes into it.

A line comment ends the line.  A backslash in a character literal or a string takes the
character after it along, and a doubled quote in a verbatim string does not end it. -/
def scanFrom : Context → Nat → Text → LineScan
  | context, _, [] => ⟨[], context.carry⟩
  | .lineComment, _, _ => ⟨[], .code⟩
  | .code, offset, '/' :: '/' :: rest => scanFrom .lineComment (offset + 2) rest
  | .code, offset, '/' :: '*' :: rest => scanFrom .blockComment (offset + 2) rest
  | .code, offset, '@' :: '"' :: rest => scanFrom .verbatim (offset + 2) rest
  | .code, offset, '@' :: '$' :: '"' :: rest => scanFrom .verbatim (offset + 3) rest
  | .code, offset, '$' :: '@' :: '"' :: rest => scanFrom .verbatim (offset + 3) rest
  | .code, offset, '"' :: rest => scanFrom .string (offset + 1) rest
  | .code, offset, '\'' :: rest => scanFrom .character (offset + 1) rest
  | .code, offset, '{' :: rest => (scanFrom .code (offset + 1) rest).cons ⟨offset, .opening⟩
  | .code, offset, '}' :: rest => (scanFrom .code (offset + 1) rest).cons ⟨offset, .closing⟩
  | .code, offset, c :: rest => scanFrom .code (offset + c.utf8Size) rest
  | .string, _, ['\\'] => ⟨[], .code⟩
  | .string, offset, '\\' :: c :: rest => scanFrom .string (offset + 1 + c.utf8Size) rest
  | .string, offset, '"' :: rest => scanFrom .code (offset + 1) rest
  | .string, offset, c :: rest => scanFrom .string (offset + c.utf8Size) rest
  | .character, _, ['\\'] => ⟨[], .code⟩
  | .character, offset, '\\' :: c :: rest => scanFrom .character (offset + 1 + c.utf8Size) rest
  | .character, offset, '\'' :: rest => scanFrom .code (offset + 1) rest
  | .character, offset, c :: rest => scanFrom .character (offset + c.utf8Size) rest
  | .verbatim, offset, '"' :: '"' :: rest => scanFrom .verbatim (offset + 2) rest
  | .verbatim, offset, '"' :: rest => scanFrom .code (offset + 1) rest
  | .verbatim, offset, c :: rest => scanFrom .verbatim (offset + c.utf8Size) rest
  | .blockComment, offset, '*' :: '/' :: rest => scanFrom .code (offset + 2) rest
  | .blockComment, offset, c :: rest => scanFrom .blockComment (offset + c.utf8Size) rest

/-- The structural braces of one line after a line that left `carry` open. -/
def scanLine (line : Text) (carry : Carry) : LineScan := scanFrom carry.context 0 line

/-- Scans line after line, each with what the line before left open. -/
def scanLines : Carry → List Text → List LineScan
  | _, [] => []
  | carry, line :: rest =>
      let scan := scanLine line carry
      scan :: scanLines scan.carry rest

def BraceKind.delta : BraceKind → Int
  | .opening => 1
  | .closing => -1

/-- How many more of the braces open than close. -/
def BraceKind.balance : List BraceKind → Int
  | [] => 0
  | kind :: rest => kind.delta + balance rest

/-- How many more braces the line opens than it closes. -/
def LineScan.delta (scan : LineScan) : Int := BraceKind.balance (scan.braces.map (·.kind))

/-- How many more braces the lines open than they close. -/
def totalDelta (lines : List Text) : Int :=
  (scanLines .code lines).foldr (fun scan total => scan.delta + total) 0

/-- Each line with what is open where it starts. -/
def withCarry : Carry → List Text → List (Carry × Text)
  | _, [] => []
  | carry, line :: rest => (carry, line) :: withCarry (scanLine line carry).carry rest

end MigrationSquash.Code
