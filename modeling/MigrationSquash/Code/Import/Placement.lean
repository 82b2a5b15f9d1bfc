import MigrationSquash.Code.Import
import MigrationSquash.Text.Lines

/-!
# Where import declarations stand

Declarations are written directly after the namespace declaration, in place of those that
stand there.  Declarations elsewhere in the file stay.
-/

set_option autoImplicit false

namespace MigrationSquash.Code

/-- How the line of a namespace declaration ends: as a statement, with the brace that
opens the namespace, or with that brace still to come. -/
inductive NamespaceEnd where
  | statement
  | opened
  | pending
  deriving DecidableEq, Repr

/-- Whether nothing or only a line comment is left. -/
def isLineEnd (s : Text) : Bool :=
  s.isEmpty || (Text.startsWith ['/', '/'] s && s.all (· ≠ '\n'))

/-- How the line ends if it declares a namespace. -/
def namespaceEnd? (line : Text) : Option NamespaceEnd := do
  let name ← afterKeyword? "namespace".toList (Text.trimStart line)
  let rest ← afterIdentifier? isPathChar name
  match Text.trimStart rest with
  | ';' :: tail => if isLineEnd (Text.trimStart tail) then some .statement else none
  | '{' :: tail => if isLineEnd (Text.trimStart tail) then some .opened else none
  | tail => if isLineEnd tail then some .pending else none

/-- The line number at which declarations are written, how they are indented, and whether
a blank line precedes them. -/
structure Placement where
  line : Nat
  indent : Text
  blankBefore : Bool
  deriving DecidableEq, Repr

/-- The line after the brace that opens the namespace declared on line `number`. -/
def lineAfterOpening (lines : List Text) (number : Nat) : Nat :=
  let opens := fun line => Text.startsWith ['{'] (Text.trimStart line)
  match (lines.drop (number + 1)).findIdx? opens with
  | some distance => number + 1 + distance + 1
  | none => number + 1

/-- Without a namespace, declarations stand where the first one stands, or on top. -/
def placement (lines : List Text) : Placement :=
  match lines.findIdx? (fun line => (namespaceEnd? line).isSome) with
  | none => ⟨(lines.findIdx? isImport).getD 0, [], false⟩
  | some number =>
      let line := lines.getD number []
      let indent := Text.indentation line
      match namespaceEnd? line with
      | some .statement => ⟨number + 1, indent, true⟩
      | some .opened => ⟨number + 1, indent ++ Text.indentStep, false⟩
      | _ => ⟨lineAfterOpening lines number, indent ++ Text.indentStep, false⟩

/-- Whether a line gives way to the declarations that are written. -/
def isReplaced (line : Text) : Bool := Text.isBlankText line || isImport line

/-- The lines with the declarations of a set after the namespace declaration. -/
def placeImports (lines : List Text) (imports : ImportSet) : List Text :=
  if imports.isEmpty then
    lines
  else
    let place := placement lines
    let rest := (lines.drop place.line).dropWhile isReplaced
    lines.take place.line ++ (if place.blankBefore then [[]] else []) ++
      imports.items.map (place.indent ++ ·) ++ (if rest.isEmpty then [] else [[]]) ++ rest

end MigrationSquash.Code
