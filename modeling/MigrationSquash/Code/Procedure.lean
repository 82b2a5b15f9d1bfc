import MigrationSquash.Text.Blank
import MigrationSquash.Text.Word

/-!
# Procedures

The two procedures of a migration and the text that declares each of them.
-/

set_option autoImplicit false

namespace MigrationSquash

/-- A migration is applied by `Up` and reverted by `Down`. -/
inductive Procedure where
  | up
  | down
  deriving DecidableEq, Repr

namespace Procedure

def name : Procedure → Text
  | up => "Up".toList
  | down => "Down".toList

/-- What follows a declaration of the procedure up to its opening parenthesis, if the
text starts with one. -/
def afterSignature? (procedure : Procedure) (s : Text) : Option Text := do
  let afterVoid ← Text.after? "void".toList s
  let rest := Text.trimStart afterVoid
  if rest.length = afterVoid.length then
    none
  else
    let afterName ← Text.after? procedure.name rest
    Text.after? ['('] (Text.trimStart afterName)

/-- The offsets in bytes where the first declaration in `s` starts and where its opening
parenthesis ends; `s` starts `offset` bytes into its line, after the character `left`. -/
def signatureFrom? (procedure : Procedure) : Option Char → Nat → Text → Option (Nat × Nat)
  | _, _, [] => none
  | left, offset, c :: rest =>
      let here :=
        if Text.isWordBoundary left (some c) then procedure.afterSignature? (c :: rest)
        else none
      match here with
      | some tail => some (offset, offset + (Text.width (c :: rest) - Text.width tail))
      | none => procedure.signatureFrom? (some c) (offset + c.utf8Size) rest

/-- The first declaration of the procedure in a line. -/
def signature? (procedure : Procedure) (line : Text) : Option (Nat × Nat) :=
  procedure.signatureFrom? none 0 line

def isDeclaredIn (procedure : Procedure) (line : Text) : Bool :=
  (procedure.signature? line).isSome

end Procedure

end MigrationSquash
