import MigrationSquash.Hazard.Basic
import MigrationSquash.Proofs.Scan.Blanks

/-!
# Calls in a text

A call is read off the text from its dot on, up to the parenthesis that closes it.  What stands
before it moves it and changes nothing else.  Main statements: the events of a text are those that
its ends start with, one for each end, and its hazards are the pairs of events that fit the rule.
-/

set_option autoImplicit false

namespace MigrationSquash

open Text (AllBlank isBlank trimStart width)

namespace Code

/-- The segments of a call that stands further behind. -/
def Segments.move (distance : Nat) (segments : Segments) : Segments :=
  { segments with stop := segments.stop + distance }

theorem map_move_write (distance : Nat) (s : Text) (found : Option Segments) :
    (found.map (Segments.write s)).map (Segments.move distance) =
      (found.map (Segments.move distance)).map (Segments.write s) := by
  cases found <;> rfl

theorem map_move_divide (distance : Nat) (found : Option Segments) :
    (found.map Segments.divide).map (Segments.move distance) =
      (found.map (Segments.move distance)).map Segments.divide := by
  cases found <;> rfl

/-- Where a text starts has no part in how it is divided. -/
theorem segments?_move (context : Context) (depth offset distance : Nat) (s : Text) :
    segments? context depth (offset + distance) s =
      (segments? context depth offset s).map (Segments.move distance) := by
  fun_induction segments? context depth offset s with
  | case1 context => cases context <;> rfl
  | case6 offset => simp only [segments?, Option.map_some, Segments.move, Nat.add_right_comm]
  | case7 offset rest ih =>
      rw [segments?, Nat.add_right_comm, ih, map_move_divide]
  | case8 depth offset c rest noLine noBlock noVerbatim noInterpolated noStop noComma context inner
      ih =>
      rw [segments?, Nat.add_right_comm, map_move_write, ← ih]
      all_goals assumption
  | case2 | case3 | case9 | case10 | case11 | case12 =>
      simp_all only [segments?, Nat.add_right_comm, map_move_write, if_true, if_false]
  | _ => simp_all only [segments?, Nat.add_right_comm, map_move_write]

theorem argumentsFrom?_move (offset distance : Nat) (inside : Text) :
    argumentsFrom? (offset + distance) inside =
      (argumentsFrom? offset inside).map fun (arguments, stop) => (arguments, stop + distance) := by
  rw [argumentsFrom?, argumentsFrom?, segments?_move]
  cases segments? .code 0 offset inside <;> rfl

end Code

namespace Call

variable {method s rest : Text} {parameters : List Text} {call : Call}

theorem afterOpening?_eq_some_iff {inside : Text} (shown : method.head?.any (!isBlank ·) = true) :
    afterOpening? method s = some inside ↔ ∃ behindDot behindName : Text,
      AllBlank behindDot ∧ AllBlank behindName ∧
        s = '.' :: (behindDot ++ (method ++ (behindName ++ '(' :: inside))) := by
  constructor
  · intro found
    obtain ⟨afterDot, dot, found⟩ := Option.bind_eq_some_iff.1 found
    obtain ⟨afterName, name, found⟩ := Option.bind_eq_some_iff.1 found
    rw [Text.after?_eq_some_iff] at dot name found
    obtain ⟨behindDot, dotSplit, dotBlank⟩ := Text.blanks_append_trimStart afterDot
    obtain ⟨behindName, nameSplit, nameBlank⟩ := Text.blanks_append_trimStart afterName
    rw [name] at dotSplit
    rw [found] at nameSplit
    refine ⟨behindDot, behindName, dotBlank, nameBlank, ?_⟩
    rw [dot, dotSplit, nameSplit]
    rfl
  · rintro ⟨behindDot, behindName, dotBlank, nameBlank, rfl⟩
    have name : trimStart (behindDot ++ (method ++ (behindName ++ '(' :: inside))) =
        method ++ (behindName ++ '(' :: inside) := by
      rw [trimStart, List.dropWhile_append_of_pos dotBlank]
      cases method with
      | nil => cases shown
      | cons first others =>
          have visible : isBlank first = false := by simpa using shown
          rw [List.cons_append, List.dropWhile_cons, if_neg (by rw [visible]; decide)]
    have parenthesis : trimStart (behindName ++ '(' :: inside) = '(' :: inside := by
      rw [trimStart, List.dropWhile_append_of_pos nameBlank]
      rfl
    have dot (t : Text) : Text.after? ['.'] ('.' :: t) = some t := Text.after?_append ['.'] t
    have opening : Text.after? ['('] ('(' :: inside) = some inside := Text.after?_append ['('] inside
    simp only [afterOpening?, dot, name, Text.after?_append, parenthesis, opening,
      Option.bind_eq_bind, Option.bind_some]

/-- The text starts with a call of the method that gives the parameters these values. -/
def Opens (method : Text) (parameters : List Text) (values : List (Text × Option Text)) (s : Text) :
    Prop :=
  ∃ behindDot behindName inside arguments stop, AllBlank behindDot ∧ AllBlank behindName ∧
    s = '.' :: (behindDot ++ (method ++ (behindName ++ '(' :: inside))) ∧
    Code.argumentsFrom? 0 inside = some (arguments, stop) ∧
    values = parameters.zip ((Code.bind parameters arguments).map (·.bind Code.literalValue))

theorem at?_eq_some_iff {offset : Nat} (shown : method.head?.any (!isBlank ·) = true) :
    at? method parameters offset s = some call ↔
      call.position = offset ∧ Opens method parameters call.values s := by
  have away (inside : Text) : Code.argumentsFrom? (offset + (width s - width inside)) inside =
      (Code.argumentsFrom? 0 inside).map fun (arguments, stop) =>
        (arguments, stop + (offset + (width s - width inside))) := by
    rw [← Code.argumentsFrom?_move, Nat.zero_add]
  constructor
  · intro found
    obtain ⟨inside, opening, found⟩ := Option.bind_eq_some_iff.1 found
    obtain ⟨⟨arguments, _⟩, given, found⟩ := Option.bind_eq_some_iff.1 found
    obtain rfl := Option.some.inj found
    rw [away] at given
    obtain ⟨⟨_, stop⟩, near, same⟩ := Option.map_eq_some_iff.1 given
    obtain ⟨rfl, -⟩ := Prod.mk.inj same
    obtain ⟨behindDot, behindName, dotBlank, nameBlank, split⟩ :=
      (afterOpening?_eq_some_iff shown).1 opening
    exact ⟨rfl, behindDot, behindName, inside, _, stop, dotBlank, nameBlank, split, near, rfl⟩
  · rintro ⟨position, behindDot, behindName, inside, arguments, stop, dotBlank, nameBlank, split,
      near, values⟩
    have opening := (afterOpening?_eq_some_iff shown).2
      ⟨behindDot, behindName, dotBlank, nameBlank, split⟩
    obtain ⟨_, _⟩ := call
    subst position values
    simp only [at?, opening, away, near, Option.map_some, Option.bind_eq_bind, Option.bind_some,
      Option.pure_def]

/-- The calls of a text are those that its ends start with. -/
theorem mem_collectFrom_iff {offset : Nat} :
    call ∈ collectFrom method parameters offset s ↔
      ∃ front rest, s = front ++ rest ∧
        at? method parameters (offset + width front) rest = some call := by
  induction s generalizing offset with
  | nil =>
      constructor
      · exact nofun
      · rintro ⟨front, rest, split, found⟩
        obtain ⟨rfl, rfl⟩ := List.nil_eq_append_iff.1 split
        cases found
  | cons c tail ih =>
      rw [collectFrom, List.mem_append, Option.mem_toList, ih]
      constructor
      · rintro (here | ⟨front, rest, rfl, found⟩)
        · exact ⟨[], c :: tail, rfl, here⟩
        · rw [Nat.add_assoc] at found
          exact ⟨c :: front, rest, rfl, found⟩
      · rintro ⟨front, rest, split, found⟩
        cases front with
        | nil =>
            obtain rfl : c :: tail = rest := split
            exact Or.inl found
        | cons d more =>
            obtain ⟨rfl, rfl⟩ := List.cons.inj split
            rw [Text.width_cons, ← Nat.add_assoc] at found
            exact Or.inr ⟨more, rest, rfl, found⟩


theorem mem_collect_iff (shown : method.head?.any (!isBlank ·) = true) :
    call ∈ collect method parameters s ↔ ∃ front rest, s = front ++ rest ∧
      call.position = width front ∧ Opens method parameters call.values rest := by
  simp only [collect, mem_collectFrom_iff, at?_eq_some_iff shown, Nat.zero_add]

end Call

/-! ## Events -/

theorem EntityKind.mem_all (kind : EntityKind) : kind ∈ all := by
  cases kind <;> decide

theorem EntityKind.shown_renameMethod (kind : EntityKind) :
    kind.renameMethod.head?.any (!isBlank ·) = true := by
  cases kind <;> decide

theorem EntityKind.shown_dropMethod (kind : EntityKind) :
    kind.dropMethod.head?.any (!isBlank ·) = true := by
  cases kind <;> decide

section Events

variable {s : Text} {kind : EntityKind} {call : Call}

/-- The text starts with the call that makes the event. -/
def RenameEvent.Opens (event : RenameEvent) (s : Text) : Prop :=
  ∃ values, Call.Opens event.kind.renameMethod event.kind.renameParameters values s ∧
    Call.rename? event.kind ⟨event.position, values⟩ = some event

/-- The text starts with the call that makes the event. -/
def DropEvent.Opens (event : DropEvent) (s : Text) : Prop :=
  ∃ values, Call.Opens event.kind.dropMethod event.kind.dropParameters values s ∧
    Call.drop? event.kind ⟨event.position, values⟩ = some event

theorem Call.kind_position_of_rename? {event : RenameEvent} (made : call.rename? kind = some event) :
    event.kind = kind ∧ event.position = call.position := by
  obtain ⟨_, -, rfl⟩ := Option.map_eq_some_iff.1 made
  exact ⟨rfl, rfl⟩

theorem Call.kind_position_of_drop? {event : DropEvent} (made : call.drop? kind = some event) :
    event.kind = kind ∧ event.position = call.position := by
  obtain ⟨_, -, rfl⟩ := Option.map_eq_some_iff.1 made
  exact ⟨rfl, rfl⟩

/-- What is made of the calls of one method for each kind. -/
theorem mem_flatMap_collect_iff {α : Type} {method : EntityKind → Text}
    {parameters : EntityKind → List Text} {read : EntityKind → Call → Option α} {event : α}
    (shown : ∀ kind, (method kind).head?.any (!isBlank ·) = true) :
    event ∈ EntityKind.all.flatMap (fun kind =>
        (Call.collect (method kind) (parameters kind) s).filterMap (read kind)) ↔
      ∃ kind front rest values, s = front ++ rest ∧
        Call.Opens (method kind) (parameters kind) values rest ∧
        read kind ⟨width front, values⟩ = some event := by
  simp only [List.mem_flatMap, List.mem_filterMap, Call.mem_collect_iff (shown _)]
  constructor
  · rintro ⟨kind, -, ⟨position, values⟩, ⟨front, rest, split, rfl, opens⟩, made⟩
    exact ⟨kind, front, rest, values, split, opens, made⟩
  · rintro ⟨kind, front, rest, values, split, opens, made⟩
    exact ⟨kind, kind.mem_all, ⟨width front, values⟩, ⟨front, rest, split, rfl, opens⟩, made⟩

/-- The renames of a text are those that its ends start with. -/
theorem mem_renameEvents_iff {event : RenameEvent} :
    event ∈ renameEvents s ↔ ∃ front rest, s = front ++ rest ∧ event.position = width front ∧
      event.Opens rest := by
  rw [renameEvents, List.mem_mergeSort,
    mem_flatMap_collect_iff EntityKind.shown_renameMethod]
  constructor
  · rintro ⟨kind, front, rest, values, split, opens, made⟩
    obtain ⟨rfl, position⟩ := Call.kind_position_of_rename? made
    refine ⟨front, rest, split, position, values, opens, ?_⟩
    rw [position]
    exact made
  · rintro ⟨front, rest, split, position, values, opens, made⟩
    rw [position] at made
    exact ⟨event.kind, front, rest, values, split, opens, made⟩

/-- The drops of a text are those that its ends start with. -/
theorem mem_dropEvents_iff {event : DropEvent} :
    event ∈ dropEvents s ↔ ∃ front rest, s = front ++ rest ∧ event.position = width front ∧
      event.Opens rest := by
  rw [dropEvents, List.mem_mergeSort, mem_flatMap_collect_iff EntityKind.shown_dropMethod]
  constructor
  · rintro ⟨kind, front, rest, values, split, opens, made⟩
    obtain ⟨rfl, position⟩ := Call.kind_position_of_drop? made
    refine ⟨front, rest, split, position, values, opens, ?_⟩
    rw [position]
    exact made
  · rintro ⟨front, rest, split, position, values, opens, made⟩
    rw [position] at made
    exact ⟨event.kind, front, rest, values, split, opens, made⟩

namespace Hazard

theorem mem_find_iff {hazard : Hazard} :
    hazard ∈ find s ↔ hazard.rename ∈ renameEvents s ∧ hazard.drop ∈ dropEvents s ∧
      applies hazard.rename hazard.drop = true := by
  simp only [find, List.mem_flatMap, List.mem_map, List.mem_filter]
  constructor
  · rintro ⟨rename, renamed, drop, ⟨dropped, fits⟩, rfl⟩
    exact ⟨renamed, dropped, fits⟩
  · rintro ⟨renamed, dropped, fits⟩
    exact ⟨hazard.rename, renamed, hazard.drop, ⟨dropped, fits⟩, rfl⟩

theorem existsIn_iff : existsIn s = true ↔ ∃ hazard, hazard ∈ find s := by
  simp only [existsIn, List.any_eq_true, mem_find_iff]
  constructor
  · rintro ⟨rename, renamed, drop, dropped, fits⟩
    exact ⟨⟨rename, drop⟩, renamed, dropped, fits⟩
  · rintro ⟨⟨rename, drop⟩, renamed, dropped, fits⟩
    exact ⟨rename, renamed, drop, dropped, fits⟩

end Hazard

end Events

end MigrationSquash
