import Mathlib.Data.List.Nodup
import MigrationSquash.Hazard.Event

/-!
# Positions of arguments

Of the arguments that a call may give to distinct parameters, one without a name stands for the
parameter in its own position, and names may come before it where they name the parameters of their
own positions.  Binding counts the arguments without names only.  Main statement: it puts every
value into the slot of its parameter exactly if no argument without a name follows a named one.
-/

set_option autoImplicit false

namespace MigrationSquash.Code

variable {parameters : List Text} {arguments : List Argument} {slot next : Nat} {value : Text}

/-! ## What a call gives to which parameter -/

/-- The argument in position `index` is given to the parameter of this slot: to the one that it
names, or without a name to the one in its own position. -/
def StandsFor (parameters : List Text) (index : Nat) (argument : Argument) (slot : Nat) : Prop :=
  match argument.name with
  | some name => parameters[slot]? = some name
  | none => slot = index

instance (parameters : List Text) (index : Nat) (argument : Argument) (slot : Nat) :
    Decidable (StandsFor parameters index argument slot) := by
  unfold StandsFor
  split <;> infer_instance

/-- The arguments that a call may give to its parameters. -/
structure Accepts (parameters : List Text) (arguments : List Argument) : Prop where
  fits : arguments.length ≤ parameters.length
  known : ∀ argument ∈ arguments, ∀ name ∈ argument.name, name ∈ parameters
  /-- A name before an argument without one is that of the parameter in its own position. -/
  inPosition : ∀ first second : Fin arguments.length, first < second →
    arguments[second].name = none → ∀ name ∈ arguments[first].name,
      parameters[first.val]? = some name
  once : ∀ (slot : Fin parameters.length) (first second : Fin arguments.length),
    StandsFor parameters first arguments[first] slot →
      StandsFor parameters second arguments[second] slot → first = second

/-- Every value is in the slot of its parameter, and the other slots are empty. -/
structure Binds (parameters : List Text) (arguments : List Argument) (slots : List (Option Text)) :
    Prop where
  length : slots.length = parameters.length
  given : ∀ index argument, arguments[index]? = some argument →
    ∃ slot, StandsFor parameters index argument slot ∧ slots[slot]? = some (some argument.value)
  empty : ∀ slot < parameters.length, (∀ index argument, arguments[index]? = some argument →
    ¬ StandsFor parameters index argument slot) → slots[slot]? = some none

/-- No argument without a name follows a named one. -/
def NamesLast (arguments : List Argument) : Prop :=
  arguments.Pairwise fun earlier later => later.name = none → earlier.name = none

instance : Decidable (NamesLast arguments) :=
  inferInstanceAs (Decidable (arguments.Pairwise _))

/-! ## What binding writes -/

/-- The slots that are written, each with the value that it gets, in order. -/
def targets (parameters : List Text) : Nat → List Argument → List (Nat × Text)
  | _, [] => []
  | next, argument :: rest =>
      match argument.name with
      | some name =>
          ((parameters.findIdx? (· = name)).map (·, argument.value)).toList ++
            targets parameters next rest
      | none => (next, argument.value) :: targets parameters (next + 1) rest

def write (slots : List (Option Text)) (target : Nat × Text) : List (Option Text) :=
  slots.set target.1 (some target.2)

theorem bindFrom_eq_foldl (parameters : List Text) (next : Nat) (slots : List (Option Text))
    (arguments : List Argument) :
    bindFrom parameters next slots arguments =
      (targets parameters next arguments).foldl write slots := by
  induction arguments generalizing next slots with
  | nil => rfl
  | cons argument rest ih =>
      rw [bindFrom, targets]
      cases argument.name with
      | none => exact ih (next + 1) _
      | some name =>
          dsimp only
          cases parameters.findIdx? (· = name) with
          | none => exact ih next _
          | some index => exact ih next _

theorem bind_eq_foldl (parameters : List Text) (arguments : List Argument) :
    bind parameters arguments =
      (targets parameters 0 arguments).foldl write (parameters.map fun _ => none) :=
  bindFrom_eq_foldl parameters 0 _ arguments

section Writes

variable (writes : List (Nat × Text)) (slots : List (Option Text))

theorem length_foldl_write : (writes.foldl write slots).length = slots.length := by
  induction writes generalizing slots with
  | nil => rfl
  | cons target rest ih => rw [List.foldl_cons, ih, write, List.length_set]

theorem getElem?_foldl_write_of_not_mem (absent : ∀ value, (slot, value) ∉ writes) :
    (writes.foldl write slots)[slot]? = slots[slot]? := by
  induction writes generalizing slots with
  | nil => rfl
  | cons target rest ih =>
      obtain ⟨index, value⟩ := target
      have other : index ≠ slot := by
        rintro rfl
        exact absent value List.mem_cons_self
      rw [List.foldl_cons, ih _ fun value member => absent value (List.mem_cons_of_mem _ member),
        write, List.getElem?_set_ne other]

theorem getElem?_foldl_write_of_mem (inside : slot < slots.length)
    (member : (slot, value) ∈ writes) (single : ∀ other, (slot, other) ∈ writes → other = value) :
    (writes.foldl write slots)[slot]? = some (some value) := by
  induction writes generalizing slots with
  | nil => cases member
  | cons target rest ih =>
      have later : ∀ other, (slot, other) ∈ rest → other = value := fun other member =>
        single other (List.mem_cons_of_mem _ member)
      rw [List.foldl_cons]
      by_cases again : (slot, value) ∈ rest
      · exact ih _ (by rwa [write, List.length_set]) again later
      · have absent : ∀ other, (slot, other) ∉ rest := fun other member =>
          again (later other member ▸ member)
        obtain rfl : (slot, value) = target := (List.mem_cons.1 member).resolve_right again
        rw [getElem?_foldl_write_of_not_mem rest _ absent, write]
        exact List.getElem?_set_self inside

end Writes

/-- How many arguments have no name. -/
def unnamedCount (arguments : List Argument) : Nat := arguments.countP (·.name.isNone)

/-- The slot that is written for an argument behind others. -/
def slotBehind? (parameters : List Text) (next : Nat) (earlier : List Argument)
    (argument : Argument) : Option Nat :=
  match argument.name with
  | some name => parameters.findIdx? (· = name)
  | none => some (next + unnamedCount earlier)

theorem unnamedCount_cons (argument : Argument) (rest : List Argument) :
    unnamedCount (argument :: rest) =
      unnamedCount rest + if argument.name.isNone then 1 else 0 :=
  List.countP_cons

theorem mem_targets_cons {argument : Argument} {rest : List Argument} :
    (slot, value) ∈ targets parameters next (argument :: rest) ↔
      argument.value = value ∧ slotBehind? parameters next [] argument = some slot ∨
        (slot, value) ∈
          targets parameters (next + if argument.name.isNone then 1 else 0) rest := by
  rw [targets, slotBehind?]
  cases argument.name with
  | none => simp [unnamedCount, eq_comm, and_comm]
  | some name => simp [and_comm]

/-- Written is the slot of each argument, and arguments without names get one slot after the
other. -/
theorem mem_targets_iff :
    (slot, value) ∈ targets parameters next arguments ↔
      ∃ (index : Nat) (argument : Argument), arguments[index]? = some argument ∧
        argument.value = value ∧
          slotBehind? parameters next (arguments.take index) argument = some slot := by
  induction arguments generalizing next with
  | nil => simp [targets]
  | cons first rest ih =>
      have counted (index : Nat) (argument : Argument) :
          slotBehind? parameters next ((first :: rest).take (index + 1)) argument =
            slotBehind? parameters (next + if first.name.isNone then 1 else 0)
              (rest.take index) argument := by
        rw [slotBehind?, slotBehind?, List.take_succ_cons, unnamedCount_cons, Nat.add_assoc,
          Nat.add_comm (unnamedCount _)]
      rw [mem_targets_cons, ih]
      constructor
      · rintro (⟨same, written⟩ | ⟨index, argument, found, same, written⟩)
        · exact ⟨0, first, rfl, same, written⟩
        · exact ⟨index + 1, argument, found, same, (counted index argument).trans written⟩
      · rintro ⟨index, argument, found, same, written⟩
        cases index with
        | zero =>
            obtain rfl := Option.some.inj found
            exact Or.inl ⟨same, written⟩
        | succ index =>
            exact Or.inr ⟨index, argument, found, same, (counted index argument).symm.trans written⟩

/-! ## Slots and parameters -/

theorem findIdx?_eq_some_iff_of_nodup (distinct : parameters.Nodup) {name : Text} :
    parameters.findIdx? (· = name) = some slot ↔ parameters[slot]? = some name := by
  rw [List.findIdx?_eq_some_iff_getElem, List.getElem?_eq_some_iff]
  constructor
  · rintro ⟨inside, here, -⟩
    exact ⟨inside, of_decide_eq_true here⟩
  · rintro ⟨inside, rfl⟩
    refine ⟨inside, decide_eq_true rfl, fun index before => ?_⟩
    have other : parameters[index] ≠ parameters[slot] := fun same =>
      Nat.ne_of_lt before ((List.Nodup.getElem_inj_iff distinct).1 same)
    simpa using other

theorem slotBehind?_of_named (distinct : parameters.Nodup) {index : Nat} {argument : Argument}
    (named : argument.name ≠ none) {earlier : List Argument} :
    slotBehind? parameters next earlier argument = some slot ↔
      StandsFor parameters index argument slot := by
  obtain ⟨name, isName⟩ := Option.ne_none_iff_exists'.1 named
  simp only [slotBehind?, StandsFor, isName, findIdx?_eq_some_iff_of_nodup distinct]

theorem slotBehind?_of_unnamed {argument : Argument} (unnamed : argument.name = none)
    (earlier : List Argument) :
    slotBehind? parameters next earlier argument = some (next + unnamedCount earlier) := by
  rw [slotBehind?, unnamed]

theorem standsFor_of_unnamed {index : Nat} {argument : Argument} (unnamed : argument.name = none) :
    StandsFor parameters index argument slot ↔ slot = index := by
  rw [StandsFor, unnamed]

/-- Where names come last each argument is put into the slot of its parameter. -/
theorem NamesLast.slotBehind?_eq_some_iff (distinct : parameters.Nodup)
    (last : NamesLast arguments) {index : Nat} {argument : Argument}
    (found : arguments[index]? = some argument) :
    slotBehind? parameters 0 (arguments.take index) argument = some slot ↔
      StandsFor parameters index argument slot := by
  cases named : argument.name with
  | some name => exact slotBehind?_of_named distinct (by simp [named])
  | none =>
      obtain ⟨inside, rfl⟩ := List.getElem?_eq_some_iff.1 found
      have allUnnamed : ∀ earlier ∈ arguments.take index, earlier.name.isNone = true := by
        intro earlier member
        obtain ⟨place, short, rfl⟩ := List.mem_iff_getElem.1 member
        rw [List.length_take] at short
        rw [List.getElem_take, Option.isNone_iff_eq_none]
        exact List.pairwise_iff_getElem.1 last place index _ inside (by omega) named
      have counted : unnamedCount (arguments.take index) = index := by
        rw [unnamedCount, List.countP_eq_length.2 allUnnamed]
        exact List.length_take_of_le (Nat.le_of_lt inside)
      rw [slotBehind?_of_unnamed named, standsFor_of_unnamed named, counted, Nat.zero_add,
        Option.some.injEq, eq_comm]

theorem StandsFor.lt_length (fits : arguments.length ≤ parameters.length) {index : Nat}
    {argument : Argument} (found : arguments[index]? = some argument)
    (stands : StandsFor parameters index argument slot) : slot < parameters.length := by
  cases named : argument.name with
  | none =>
      obtain rfl := (standsFor_of_unnamed named).1 stands
      obtain ⟨inside, -⟩ := List.getElem?_eq_some_iff.1 found
      exact Nat.lt_of_lt_of_le inside fits
  | some name =>
      rw [StandsFor, named] at stands
      obtain ⟨inside, -⟩ := List.getElem?_eq_some_iff.1 stands
      exact inside

namespace Accepts

variable (accepted : Accepts parameters arguments)
include accepted

theorem exists_slot {index : Nat} {argument : Argument}
    (found : arguments[index]? = some argument) :
    ∃ slot, StandsFor parameters index argument slot := by
  cases named : argument.name with
  | none => exact ⟨index, (standsFor_of_unnamed named).2 rfl⟩
  | some name =>
      obtain ⟨slot, inside, here⟩ := List.mem_iff_getElem.1
        (accepted.known argument (List.mem_of_getElem? found) name named)
      refine ⟨slot, ?_⟩
      rw [StandsFor, named]
      exact List.getElem?_eq_some_iff.2 ⟨inside, here⟩

theorem eq_of_standsFor {first second : Nat} {earlier later : Argument}
    (isFirst : arguments[first]? = some earlier) (isSecond : arguments[second]? = some later)
    (stands : StandsFor parameters first earlier slot)
    (also : StandsFor parameters second later slot) : first = second ∧ earlier = later := by
  obtain ⟨firstInside, rfl⟩ := List.getElem?_eq_some_iff.1 isFirst
  obtain ⟨secondInside, rfl⟩ := List.getElem?_eq_some_iff.1 isSecond
  have same := accepted.once ⟨slot, stands.lt_length accepted.fits isFirst⟩
    ⟨first, firstInside⟩ ⟨second, secondInside⟩ stands also
  obtain rfl : first = second := congrArg Fin.val same
  exact ⟨rfl, rfl⟩

end Accepts

/-- A slot that something is in was written. -/
theorem exists_target_of_filled (filled : (bind parameters arguments)[slot]? = some (some value)) :
    ∃ other, (slot, other) ∈ targets parameters 0 arguments := by
  by_contra absent
  rw [not_exists] at absent
  rw [bind_eq_foldl, getElem?_foldl_write_of_not_mem _ _ absent, List.getElem?_map] at filled
  cases given : parameters[slot]? <;> simp [given] at filled

theorem unnamedCount_take_lt {index : Nat} {argument : Argument}
    (found : arguments[index]? = some argument) (unnamed : argument.name = none) :
    unnamedCount (arguments.take index) < unnamedCount arguments := by
  obtain ⟨inside, rfl⟩ := List.getElem?_eq_some_iff.1 found
  have split : arguments.take index ++ arguments[index] :: arguments.drop (index + 1) =
      arguments := by
    rw [← List.drop_eq_getElem_cons inside, List.take_append_drop]
  have counted : unnamedCount arguments = unnamedCount (arguments.take index) +
      unnamedCount (arguments[index] :: arguments.drop (index + 1)) := by
    rw [unnamedCount, unnamedCount, unnamedCount, ← List.countP_append, split]
  rw [unnamedCount_cons, unnamed] at counted
  simp only [Option.isNone_none, if_true] at counted
  omega

section Binding

variable (distinct : parameters.Nodup) (accepted : Accepts parameters arguments)
include distinct accepted

theorem Accepts.binds_of_namesLast (last : NamesLast arguments) :
    Binds parameters arguments (bind parameters arguments) := by
  have written {slot : Nat} {value : Text} :
      (slot, value) ∈ targets parameters 0 arguments ↔ ∃ (index : Nat) (argument : Argument),
        arguments[index]? = some argument ∧ argument.value = value ∧
          StandsFor parameters index argument slot := by
    rw [mem_targets_iff]
    refine exists_congr fun index => exists_congr fun argument => and_congr_right fun found => ?_
    rw [last.slotBehind?_eq_some_iff distinct found]
  rw [bind_eq_foldl]
  constructor
  · rw [length_foldl_write, List.length_map]
  · intro index argument found
    obtain ⟨slot, stands⟩ := accepted.exists_slot found
    have inside := stands.lt_length accepted.fits found
    refine ⟨slot, stands, getElem?_foldl_write_of_mem _ _ (by rwa [List.length_map])
      (written.2 ⟨index, argument, found, rfl, stands⟩) fun other member => ?_⟩
    obtain ⟨place, given, here, rfl, also⟩ := written.1 member
    rw [(accepted.eq_of_standsFor here found also stands).2]
  · intro slot inside free
    rw [getElem?_foldl_write_of_not_mem]
    · simp [inside]
    · intro value member
      obtain ⟨index, argument, found, -, stands⟩ := written.1 member
      exact free index argument found stands

/-- Where each value is in its slot, an argument without a name is in no higher position than there
are arguments without names. -/
theorem Accepts.lt_unnamedCount (binds : Binds parameters arguments (bind parameters arguments))
    {index : Nat} {argument : Argument} (found : arguments[index]? = some argument)
    (unnamed : argument.name = none) : index < unnamedCount arguments := by
  obtain ⟨slot, stands, filled⟩ := binds.given index argument found
  obtain rfl := (standsFor_of_unnamed unnamed).1 stands
  obtain ⟨value, member⟩ := exists_target_of_filled filled
  obtain ⟨place, given, here, -, written⟩ := mem_targets_iff.1 member
  cases named : given.name with
  | some name =>
      -- a named argument would stand for the same parameter
      have also : StandsFor parameters place given slot :=
        (slotBehind?_of_named distinct (by simp [named])).1 written
      rw [(accepted.eq_of_standsFor here found also stands).2, unnamed] at named
      cases named
  | none =>
      rw [slotBehind?_of_unnamed named, Nat.zero_add, Option.some.injEq] at written
      exact written ▸ unnamedCount_take_lt here named

theorem Accepts.namesLast_of_binds
    (binds : Binds parameters arguments (bind parameters arguments)) : NamesLast arguments := by
  have below {index : Nat} {argument : Argument} (found : arguments[index]? = some argument) :=
    accepted.lt_unnamedCount distinct binds found
  generalize isCount : unnamedCount arguments = count at below
  -- all arguments without names are among as many in front, so these are the ones in front
  have behind : unnamedCount (arguments.drop count) = 0 := by
    rw [unnamedCount, List.countP_eq_zero]
    intro argument member
    rw [Option.isNone_iff_eq_none]
    intro unnamed
    obtain ⟨place, found⟩ := List.mem_iff_getElem?.1 member
    have far := below (List.getElem?_drop ▸ found) unnamed
    omega
  have inFront : unnamedCount (arguments.take count) = (arguments.take count).length := by
    have total : unnamedCount (arguments.take count) + unnamedCount (arguments.drop count) =
        count := by
      rw [unnamedCount, unnamedCount, ← List.countP_append, List.take_append_drop]
      exact isCount
    have most : unnamedCount (arguments.take count) ≤ (arguments.take count).length :=
      List.countP_le_length
    have short := List.length_take_le count arguments
    omega
  have allUnnamed := List.countP_eq_length.1 inFront
  refine List.pairwise_iff_getElem.2 fun first second firstInside secondInside before unnamed => ?_
  have second_lt := below (List.getElem?_eq_getElem secondInside) unnamed
  have member : arguments[first] ∈ arguments.take count := by
    refine List.mem_iff_getElem.2 ⟨first, ?_, List.getElem_take⟩
    rw [List.length_take]
    omega
  exact Option.isNone_iff_eq_none.1 (allUnnamed _ member)

/-- Of what a call may give to distinct parameters each value reaches the slot of its parameter, and
no other slot is filled, exactly if no argument without a name follows a named one. -/
theorem binds_iff_namesLast :
    Binds parameters arguments (bind parameters arguments) ↔ NamesLast arguments :=
  ⟨accepted.namesLast_of_binds distinct, accepted.binds_of_namesLast distinct⟩

end Binding

namespace Sample

/-- What a call that drops a column gives: a name in its own position, then a table. -/
def nameThenTable : List Argument :=
  [⟨some "name".toList, "\"a\"".toList⟩, ⟨none, "\"t\"".toList⟩]

end Sample

theorem binds_tableThenNames :
    (EntityKind.renameParameters .table).Nodup ∧
      Accepts (EntityKind.renameParameters .table)
        [⟨none, "\"a\"".toList⟩, ⟨some "newSchema".toList, "n".toList⟩,
          ⟨some "newName".toList, "\"b\"".toList⟩] ∧
      Binds (EntityKind.renameParameters .table)
        [⟨none, "\"a\"".toList⟩, ⟨some "newSchema".toList, "n".toList⟩,
          ⟨some "newName".toList, "\"b\"".toList⟩]
        [some "\"a\"".toList, none, some "\"b\"".toList, some "n".toList] := by
  have distinct : (EntityKind.renameParameters .table).Nodup := by decide
  have accepted : Accepts (EntityKind.renameParameters .table)
      [⟨none, "\"a\"".toList⟩, ⟨some "newSchema".toList, "n".toList⟩,
        ⟨some "newName".toList, "\"b\"".toList⟩] :=
    ⟨by decide, by decide, by decide, by decide⟩
  exact ⟨distinct, accepted, (binds_iff_namesLast distinct accepted).2 (by decide)⟩

/-- The name of the column is lost, and the table is taken for the column that is dropped. -/
theorem named_in_position_overwritten :
    (EntityKind.dropParameters .column).Nodup ∧
      Accepts (EntityKind.dropParameters .column) Sample.nameThenTable ∧
      arguments? "DropColumn(name: \"a\", \"t\")".toList 10 = some (Sample.nameThenTable, 26) ∧
      bind (EntityKind.dropParameters .column) Sample.nameThenTable =
        [some "\"t\"".toList, none, none] ∧
      ¬ Binds (EntityKind.dropParameters .column) Sample.nameThenTable
        (bind (EntityKind.dropParameters .column) Sample.nameThenTable) ∧
      ⟨.column, none, "t".toList, 1⟩ ∈ dropEvents "b.DropColumn(name: \"a\", \"t\");".toList := by
  have distinct : (EntityKind.dropParameters .column).Nodup := by decide
  have accepted : Accepts (EntityKind.dropParameters .column) Sample.nameThenTable :=
    ⟨by decide, by decide, by decide, by decide⟩
  refine ⟨distinct, accepted, by decide, by decide, fun binds => ?_, ?_⟩
  · exact absurd (accepted.namesLast_of_binds distinct binds) (by decide)
  · rw [dropEvents, List.mem_mergeSort]
    decide

end MigrationSquash.Code
