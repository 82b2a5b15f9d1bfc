import MigrationSquash.Code.Layout
import MigrationSquash.Code.Procedure

/-!
# Bodies of procedures

Where the body of a procedure stands in a file, what it holds, and the file with another
body in its place.  A body opens at the first structural brace from the declaring line on
and closes where the depth is zero again.
-/

set_option autoImplicit false

namespace MigrationSquash.Code

/-- A place in a file: a line and an offset in bytes on it. -/
structure Spot where
  line : Nat
  offset : Nat
  deriving DecidableEq, Repr

/-- The structural braces of the lines, the first of which has the given number. -/
def bracesFrom : Carry → Nat → List Text → List (Spot × BraceKind)
  | _, _, [] => []
  | carry, number, line :: rest =>
      let scan := scanLine line carry
      scan.braces.map (fun brace => (⟨number, brace.offset⟩, brace.kind)) ++
        bracesFrom scan.carry (number + 1) rest

/-- The brace that closes a block inside of which `depth` more blocks are open. -/
def closing? : Nat → List (Spot × BraceKind) → Option Spot
  | _, [] => none
  | depth, (_, .opening) :: rest => closing? (depth + 1) rest
  | 0, (spot, .closing) :: _ => some spot
  | depth + 1, (_, .closing) :: rest => closing? depth rest

/-- The first block: its opening brace and the closing brace that matches. -/
def firstBlock? : List (Spot × BraceKind) → Option (Spot × Spot)
  | [] => none
  | (spot, .opening) :: rest => (closing? 0 rest).map (spot, ·)
  | (_, .closing) :: rest => firstBlock? rest

/-- Whether a line declares the procedure, judged from its text and from what is open
where it starts. -/
def declares (procedure : Procedure) : Carry × Text → Bool
  | (carry, line) =>
      let start := Text.trimStart line
      carry = .code && procedure.isDeclaredIn line &&
        !Text.startsWith ['/', '/'] start && !Text.startsWith ['*'] start

/-- The number of the first line that declares the procedure. -/
def findDeclaration? (procedure : Procedure) (lines : List Text) : Option Nat :=
  (withCarry .code lines).findIdx? (declares procedure)

/-- Where a procedure is declared and where its body opens and closes. -/
structure Bounds where
  declaration : Nat
  opening : Spot
  closing : Spot
  deriving DecidableEq, Repr

def locate? (procedure : Procedure) (lines : List Text) : Option Bounds := do
  let declaration ← findDeclaration? procedure lines
  let (opening, closing) ← firstBlock? (bracesFrom .code declaration (lines.drop declaration))
  return ⟨declaration, opening, closing⟩

/-- The body of a procedure: its first and last line, its trimmed text, and the
indentation of its first line where that line holds nothing else. -/
structure Region where
  start : Nat
  stop : Nat
  text : Text
  indent : Option Nat
  deriving DecidableEq, Repr

def Region.empty : Region := ⟨0, 0, [], none⟩

def Region.isEmpty (region : Region) : Bool := region.text.isEmpty

def lineAt (lines : List Text) (number : Nat) : Text := lines.getD number []

/-- What stands on a line after a brace at `spot`. -/
def afterBrace (lines : List Text) (spot : Spot) : Text :=
  Text.dropBytes (spot.offset + 1) (lineAt lines spot.line)

/-- What stands on a line before `spot`. -/
def beforeSpot (lines : List Text) (spot : Spot) : Text :=
  Text.takeBytes spot.offset (lineAt lines spot.line)

/-- The lines strictly between those of the two braces. -/
def Bounds.innerLines (bounds : Bounds) (lines : List Text) : List Text :=
  (lines.take bounds.closing.line).drop (bounds.opening.line + 1)

/-- The text between the braces. -/
def Bounds.body (bounds : Bounds) (lines : List Text) : Text :=
  if bounds.opening.line = bounds.closing.line then
    Text.dropBytes (bounds.opening.offset + 1) (beforeSpot lines bounds.closing)
  else
    Text.joinLines (afterBrace lines bounds.opening :: bounds.innerLines lines ++
      [beforeSpot lines bounds.closing])

/-- The indentation of the first line inside the braces that is not blank, unless text
follows the opening brace on its line. -/
def Bounds.firstIndent (bounds : Bounds) (lines : List Text) : Option Nat :=
  if bounds.opening.line = bounds.closing.line ||
      !Text.isBlankText (afterBrace lines bounds.opening) then
    none
  else
    ((bounds.innerLines lines).find? (!Text.isBlankText ·)).map
      (Text.indentation · |>.length)

/-- The body of the procedure, if the file holds it. -/
def extract? (procedure : Procedure) (lines : List Text) : Option Region :=
  (locate? procedure lines).map fun bounds =>
    { start := bounds.declaration
      stop := bounds.closing.line
      text := Text.trim (bounds.body lines)
      indent := bounds.firstIndent lines }

/-- The body of the procedure, empty where the file does not hold it. -/
def extract (procedure : Procedure) (lines : List Text) : Region :=
  (extract? procedure lines).getD .empty

/-- The line that opens the new body: what stood before the brace, or the brace alone
behind `indent`. -/
def openingLine (indent before : Text) : Text :=
  if Text.isBlankText before then indent ++ ['{'] else Text.trimEnd before ++ [' ', '{']

/-- The lines with `body` between the braces, one level deeper than the declaration. -/
def Bounds.replace (bounds : Bounds) (lines : List Text) (body : Text) : List Text :=
  let indent := Text.indentation (lineAt lines bounds.declaration)
  lines.take bounds.declaration ++
    ((lines.take bounds.opening.line).drop bounds.declaration).map Text.trimEnd ++
    [openingLine indent (beforeSpot lines bounds.opening)] ++
    indentBlock body (indent ++ Text.indentStep) ++
    [indent ++ '}' :: Text.trimEnd (afterBrace lines bounds.closing)] ++
    lines.drop (bounds.closing.line + 1)

/-- The lines with another body for the procedure; without the procedure they stay as
they are. -/
def replace (procedure : Procedure) (lines : List Text) (body : Text) : List Text :=
  match locate? procedure lines with
  | some bounds => bounds.replace lines body
  | none => lines

end MigrationSquash.Code
