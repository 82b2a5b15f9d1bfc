import MigrationSquash.Proofs.Hazard.Calls
import MigrationSquash.Proofs.Region.Apart
import MigrationSquash.Proofs.Scan.Reading

/-!
# Events and code

The search for calls reads the text as it is and does not ask whether a call is code.  Whether a
place of a text is code is read off the scan of its lines: a brace in that place would count.  Main
statement: all events of a text are code exactly if no call that makes an event stands in a comment
or a literal.
-/

set_option autoImplicit false

namespace MigrationSquash

open Code (Mode totalDelta)
open Text (width)

/-- The place behind the text is code: a brace that opens a block there would count. -/
def IsCode (front : Text) : Prop :=
  totalDelta (Text.lines (front ++ ['{'])) = totalDelta (Text.lines front) + 1

/-- The place at an offset is code. -/
def InCode (s : Text) (offset : Nat) : Prop :=
  ∃ front rest, s = front ++ rest ∧ width front = offset ∧ IsCode front

instance (front : Text) : Decidable (IsCode front) := inferInstanceAs (Decidable (_ = _))

/-- A place is code if the walk over the characters reaches it in code. -/
theorem isCode_iff {front : Text} : IsCode front ↔ (Mode.code.read front).isCode = true := by
  have added : Mode.code.kindsOfText (front ++ ['{']) =
      Mode.code.kindsOfText front ++ ((Mode.code.read front).braceAt? '{').toList := by
    rw [Mode.kindsOfText_append, Mode.kindsOfText, Mode.kindsOfText_nil, List.append_nil]
  rw [IsCode, Code.totalDelta_eq, Code.totalDelta_eq, (Mode.kindsOfLines_lines _ _).1,
    (Mode.kindsOfLines_lines _ _).1, added]
  exact Code.BraceKind.balance_append_opening_iff

theorem inCode_iff {s : Text} {offset : Nat} :
    InCode s offset ↔
      width (Text.takeBytes offset s) = offset ∧ IsCode (Text.takeBytes offset s) := by
  constructor
  · rintro ⟨front, rest, rfl, rfl, code⟩
    rw [Code.takeBytes_width_append]
    exact ⟨rfl, code⟩
  · rintro ⟨whole, code⟩
    exact ⟨_, _, (Text.takeBytes_append_dropBytes offset s).symm, whole, code⟩

instance (s : Text) (offset : Nat) : Decidable (InCode s offset) := decidable_of_iff' _ inCode_iff

theorem inCode_width_iff (front rest : Text) :
    InCode (front ++ rest) (width front) ↔ IsCode front := by
  rw [inCode_iff, Code.takeBytes_width_append]
  exact and_iff_right rfl

/-- The text starts with a call that makes an event. -/
def StartsEvent (s : Text) : Prop :=
  (∃ rename : RenameEvent, rename.Opens s) ∨ ∃ drop : DropEvent, drop.Opens s

/-- No call that makes an event stands in a comment or a literal. -/
def NoStrayCall (s : Text) : Prop :=
  ∀ front rest, s = front ++ rest → StartsEvent rest → IsCode front

/-- All events of the text stand in code. -/
structure EventsInCode (s : Text) : Prop where
  renames : ∀ rename ∈ renameEvents s, InCode s rename.position
  drops : ∀ drop ∈ dropEvents s, InCode s drop.position

/-- Where the call stands has no part in what event it makes. -/
theorem RenameEvent.Opens.moved {rename : RenameEvent} {s : Text} (opens : rename.Opens s)
    (position : Nat) : RenameEvent.Opens { rename with position } s := by
  obtain ⟨values, call, made⟩ := opens
  obtain ⟨resulting, named, same⟩ := Option.map_eq_some_iff.1 made
  exact ⟨values, call, Option.map_eq_some_iff.2 ⟨resulting, named, by rw [← same]; rfl⟩⟩

theorem DropEvent.Opens.moved {drop : DropEvent} {s : Text} (opens : drop.Opens s)
    (position : Nat) : DropEvent.Opens { drop with position } s := by
  obtain ⟨values, call, made⟩ := opens
  obtain ⟨dropped, named, same⟩ := Option.map_eq_some_iff.1 made
  exact ⟨values, call, Option.map_eq_some_iff.2 ⟨dropped, named, by rw [← same]; rfl⟩⟩

theorem eventsInCode_iff {s : Text} : EventsInCode s ↔ NoStrayCall s := by
  constructor
  · rintro ⟨renames, drops⟩ front rest rfl starts
    rw [← inCode_width_iff front rest]
    rcases starts with ⟨rename, opens⟩ | ⟨drop, opens⟩
    · exact renames _ (mem_renameEvents_iff.2 ⟨front, rest, rfl, rfl, opens.moved (width front)⟩)
    · exact drops _ (mem_dropEvents_iff.2 ⟨front, rest, rfl, rfl, opens.moved (width front)⟩)
  · intro noStray
    constructor
    · intro rename member
      obtain ⟨front, rest, split, position, opens⟩ := mem_renameEvents_iff.1 member
      exact ⟨front, rest, split, position.symm, noStray front rest split (Or.inl ⟨rename, opens⟩)⟩
    · intro drop member
      obtain ⟨front, rest, split, position, opens⟩ := mem_dropEvents_iff.1 member
      exact ⟨front, rest, split, position.symm, noStray front rest split (Or.inr ⟨drop, opens⟩)⟩

/-- The events of hazards are events of the text. -/
theorem EventsInCode.of_hazard {s : Text} (inCode : EventsInCode s) {hazard : Hazard}
    (found : hazard ∈ Hazard.find s) :
    InCode s hazard.rename.position ∧ InCode s hazard.drop.position :=
  have ⟨renamed, dropped, _⟩ := Hazard.mem_find_iff.1 found
  ⟨inCode.renames _ renamed, inCode.drops _ dropped⟩

end MigrationSquash
