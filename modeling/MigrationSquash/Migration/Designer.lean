import MigrationSquash.Migration.Id
import MigrationSquash.Text.Blank
import MigrationSquash.Text.Word

/-!
# Designer files

A designer file describes the model after a migration and bears the identity of that
migration twice: in its attribute and in the name of its class.
-/

set_option autoImplicit false

namespace MigrationSquash.Designer

/-- What the name of a designer file adds to the identity of its migration. -/
def suffix : Text := ".Designer.cs".toList

def fileName (id : MigrationId) : Text := id.toText ++ suffix

/-- What follows `[Migration("`, with blanks between its parts. -/
def afterAttribute? (s : Text) : Option Text := do
  let rest ← Text.after? ['['] s
  let rest ← Text.after? "Migration".toList (Text.trimStart rest)
  let rest ← Text.after? ['('] (Text.trimStart rest)
  Text.after? ['"'] (Text.trimStart rest)

/-- Whether the text starts with `")]`, with blanks between its parts. -/
def endsAttribute (s : Text) : Bool :=
  match Text.after? ['"'] s with
  | some rest =>
      match Text.after? [')'] (Text.trimStart rest) with
      | some rest => Text.startsWith [']'] (Text.trimStart rest)
      | none => false
  | none => false

/-- Splits a text that starts with an attribute around the argument of the attribute. -/
def splitAttribute? (s : Text) : Option (Text × Text) := do
  let argument ← afterAttribute? s
  let tail := argument.dropWhile (· ≠ '"')
  if endsAttribute tail then some (s.take (s.length - argument.length), tail) else none

/-- The text with `id` as the argument of its first migration attribute. -/
def retargetAttribute (id : Text) : Text → Text
  | [] => []
  | c :: rest =>
      match splitAttribute? (c :: rest) with
      | some (head, tail) => head ++ id ++ tail
      | none => c :: retargetAttribute id rest

/-- What follows the word and at least one blank. -/
def afterSpacedWord? (word s : Text) : Option Text := do
  let rest ← Text.after? word s
  let trimmed := Text.trimStart rest
  if trimmed.length < rest.length then some trimmed else none

/-- What follows a class name. -/
def afterClassName? (s : Text) : Option Text :=
  match s with
  | '@' :: c :: rest =>
      if Text.isWordStart c then some (rest.dropWhile Text.isAsciiWord) else none
  | c :: rest => if Text.isWordStart c then some (rest.dropWhile Text.isAsciiWord) else none
  | [] => none

/-- Splits a text that starts with `partial class` around the name of the class. -/
def splitClass? (s : Text) : Option (Text × Text) := do
  let rest ← afterSpacedWord? "partial".toList s
  let name ← afterSpacedWord? "class".toList rest
  let tail ← afterClassName? name
  return (s.take (s.length - name.length), tail)

/-- The text with another name for its first partial class; `left` stands before it. -/
def retargetClass (name : Text) : Option Char → Text → Text
  | _, [] => []
  | left, c :: rest =>
      let here := if Text.isWordBoundary left (some c) then splitClass? (c :: rest) else none
      match here with
      | some (head, tail) => head ++ name ++ tail
      | none => c :: retargetClass name (some c) rest

/-- The text of a designer file with the identity of another migration. -/
def retarget (s : Text) (id : MigrationId) : Text :=
  retargetClass id.className none (retargetAttribute id.toText s)

end MigrationSquash.Designer
