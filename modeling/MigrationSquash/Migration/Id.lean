import MigrationSquash.Migration.Calendar

/-!
# Identity of a migration

A migration is named by a timestamp and a name, written with an underscore between them.
Main statement: a text reads as an identity exactly when it is the written form of one
whose timestamp names a second and whose name is not empty.
-/

set_option autoImplicit false

namespace MigrationSquash

structure MigrationId where
  timestamp : Text
  name : Text
  deriving DecidableEq, Repr

namespace MigrationId

/-- The identity as it is written. -/
def toText (id : MigrationId) : Text := id.timestamp ++ '_' :: id.name

/-- Reads an identity from the stem of a file name.  The timestamp has a fixed width, so
further underscores belong to the name. -/
def parse? (stem : Text) : Option MigrationId :=
  let timestamp := stem.take 14
  match stem.drop 14 with
  | '_' :: name =>
      if Calendar.isTimestamp timestamp && !name.isEmpty then some ⟨timestamp, name⟩ else none
  | _ => none

/-- The year of the timestamp. -/
def year (id : MigrationId) : Text := id.timestamp.take 4

/-- The class that declares the migration bears its name. -/
def className (id : MigrationId) : Text := id.name

/-- Chronological order, by name within a second. -/
def precedes (left right : MigrationId) : Bool :=
  decide (left.timestamp < right.timestamp) ||
    (left.timestamp == right.timestamp && !decide (right.name < left.name))

def sort (ids : List MigrationId) : List MigrationId := ids.mergeSort precedes

theorem parse?_eq_some_iff {stem : Text} {id : MigrationId} :
    parse? stem = some id ↔
      stem = id.toText ∧ Calendar.isTimestamp id.timestamp = true ∧ id.name ≠ [] := by
  constructor
  · intro parsed
    unfold parse? at parsed
    split at parsed
    case h_1 name afterTimestamp =>
      dsimp only at parsed
      split at parsed
      case isTrue accepted =>
        simp only [Bool.and_eq_true, Bool.not_eq_true', List.isEmpty_eq_false_iff] at accepted
        obtain rfl := Option.some.inj parsed
        refine ⟨?_, accepted.1, accepted.2⟩
        simp only [toText]
        rw [← afterTimestamp, List.take_append_drop]
      case isFalse => cases parsed
    case h_2 => cases parsed
  · rintro ⟨rfl, valid, named⟩
    have width : id.timestamp.length = 14 := by
      simp only [Calendar.isTimestamp, Bool.and_eq_true, beq_iff_eq] at valid
      exact valid.1.1.1.1.1.1
    have front : id.toText.take 14 = id.timestamp := by
      simp [toText, ← width]
    have back : id.toText.drop 14 = '_' :: id.name := by
      simp [toText, ← width]
    simp [parse?, front, back, valid, named]

end MigrationId

end MigrationSquash
