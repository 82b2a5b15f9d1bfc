import MigrationSquash.Hazard.Event

/-!
# Hazards

A drop of what an earlier rename produced.  It runs well as a sequence of migrations, and
no longer as one script against a fresh database.
-/

set_option autoImplicit false

namespace MigrationSquash

structure Hazard where
  rename : RenameEvent
  drop : DropEvent
  deriving DecidableEq, Repr

namespace Hazard

/-- Scopes agree up to case, and a scope that is not given agrees with every other. -/
def scopesAgree : Option Text → Option Text → Bool
  | some left, some right => Text.sameIgnoringCase left right
  | _, _ => true

/-- Whether a drop removes what a rename before it produced. -/
def applies (rename : RenameEvent) (drop : DropEvent) : Bool :=
  rename.kind = drop.kind && rename.position < drop.position &&
    Text.sameIgnoringCase drop.dropped rename.resulting && scopesAgree rename.scope drop.scope

/-- The hazards of a text, by rename and then by drop. -/
def find (s : Text) : List Hazard :=
  let drops := dropEvents s
  (renameEvents s).flatMap fun rename =>
    (drops.filter (applies rename)).map fun drop => ⟨rename, drop⟩

def existsIn (s : Text) : Bool :=
  let drops := dropEvents s
  (renameEvents s).any fun rename => drops.any (applies rename)

def message (hazard : Hazard) : Text :=
  let dropped := hazard.drop.kind.name ++ " '".toList ++ hazard.drop.dropped ++
    "' is renamed from '".toList ++ hazard.rename.former.getD ['?'] ++
    "' and later dropped".toList
  match hazard.drop.scope with
  | some scope => dropped ++ " (in '".toList ++ scope ++ "')".toList
  | none => dropped

end Hazard

end MigrationSquash
