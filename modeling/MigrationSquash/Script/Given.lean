import MigrationSquash.Migration.Catalog
import MigrationSquash.Run

/-!
# Given scripts

Scripts that are at hand: one that applies migrations and one that reverts them.  They do
not depend on which migrations these are.
-/

set_option autoImplicit false

namespace MigrationSquash

/-- Whether a script takes migrations back: it leads to a state before the one it starts
from. -/
def ScriptRequest.reverts (request : ScriptRequest) : Bool :=
  request.last = ScriptRange.emptyDatabase ||
    (request.base ≠ ScriptRange.emptyDatabase && decide (request.last < request.base))

/-- The given scripts.  If the one that is asked for is missing, this fails for a reason. -/
def Script.ofTexts (apply revert : Option Text) (reason : Text) : ScriptSource :=
  fun request tree =>
    match if request.reverts then revert else apply with
    | some script => (.ok script, tree)
    | none => (.error (.refused reason), tree)

end MigrationSquash
