import Mathlib.Logic.Function.Basic
import MigrationSquash.Proofs.Hazard.Sequences

/-!
# Replaying calls

What calls do to the tables and columns of a database, where each column is kept together with the
call that gave it its name.  The search for hazards does not replay: it compares the table that is
named in the rename with the one that is named in the drop.  Main statement: a drop of what an
earlier rename produced is reported for this rename exactly if its table has the same name then.
-/

set_option autoImplicit false

namespace MigrationSquash

/-- The columns of a table by name, each with the number of the call that gave it its name. -/
abbrev Columns := Text → Option (Option Nat)

/-- The tables of a database by name. -/
abbrev Schema := Text → Option Columns

/-- Carries a table over a call, by name. -/
def SchemaCall.carry (table : Text) : SchemaCall → Text
  | renameTable former resulting => if table = former then resulting else table
  | renameColumn _ _ _ | dropColumn _ _ => table

/-- What a table is called behind the calls. -/
def SchemaCall.tableAfter (table : Text) (calls : List SchemaCall) : Text := calls.foldl carry table

theorem SchemaCall.tableAfter_concat (table : Text) (calls : List SchemaCall) (call : SchemaCall) :
    tableAfter table (calls ++ [call]) = call.carry (tableAfter table calls) := by
  rw [tableAfter, List.foldl_append]
  rfl

namespace Schema

/-- Tables in which no column has been renamed. -/
def ofTables (tables : Text → Option (List Text)) : Schema := fun table =>
  (tables table).map fun names name => if name ∈ names then some none else none

/-- Which call gave a column its name, if there is such a column. -/
def origin? (schema : Schema) (table name : Text) : Option (Option Nat) :=
  (schema table).bind fun columns => columns name

/-- Entries of which one has another name and value. -/
def move {α : Type} (entries : Text → Option α) (former resulting : Text) (value : α) :
    Text → Option α :=
  Function.update (Function.update entries former none) resulting (some value)

/-- What the call of a number does.  A call that names nothing does nothing. -/
def run (number : Nat) (schema : Schema) : SchemaCall → Schema
  | .renameTable former resulting =>
      match schema former with
      | some columns => move schema former resulting columns
      | none => schema
  | .renameColumn table former resulting =>
      Function.update schema table <| (schema table).map fun columns =>
        if (columns former).isSome then move columns former resulting (some number) else columns
  | .dropColumn table name =>
      Function.update schema table <| (schema table).map fun columns =>
        Function.update columns name none

/-- What calls do one after the other, numbered from `number` on. -/
def replayFrom : Nat → Schema → List SchemaCall → Schema
  | _, schema, [] => schema
  | number, schema, call :: rest => replayFrom (number + 1) (schema.run number call) rest

def replay (tables : Text → Option (List Text)) (calls : List SchemaCall) : Schema :=
  replayFrom 0 (ofTables tables) calls

variable {schema : Schema} {call : SchemaCall} {table name : Text} {number given : Nat}

/-- Behind a move an entry is the one that was moved, or it was there before. -/
theorem eq_some_of_move {α : Type} {entries : Text → Option α} {former resulting key : Text}
    {value entry : α} (found : move entries former resulting value key = some entry) :
    key = resulting ∧ value = entry ∨ key ≠ former ∧ entries key = some entry := by
  rw [move, Function.update_apply, Function.update_apply] at found
  split at found
  · next isNew => exact Or.inl ⟨isNew, Option.some.inj found⟩
  · split at found
    · cases found
    · next isOther => exact Or.inr ⟨isOther, found⟩

/-- Behind a change of the columns of one table a name is as it was, or it comes from the change. -/
theorem origin?_change {scope : Text} {change : Columns → Columns}
    (found : origin? (Function.update schema scope ((schema scope).map change)) table name =
      some (some given)) :
    schema.origin? table name = some (some given) ∨
      ∃ columns, table = scope ∧ schema table = some columns ∧
        change columns name = some (some given) := by
  rw [origin?, Function.update_apply] at found
  split at found
  · next same =>
      subst same
      rw [Option.bind_map] at found
      obtain ⟨columns, held, changed⟩ := Option.bind_eq_some_iff.1 found
      exact Or.inr ⟨columns, rfl, held, changed⟩
  · exact Or.inl found

/-- A name that a call gave to a column before a step is kept with the table, and a step gives one
name at most. -/
theorem origin?_run (found : (schema.run number call).origin? table name = some (some given)) :
    (∃ former, call = .renameColumn table former name ∧ given = number) ∨
      ∃ old, schema.origin? old name = some (some given) ∧ call.carry old = table := by
  have kept {columns : Columns} (held : schema table = some columns)
      (same : columns name = some (some given)) : schema.origin? table name = some (some given) := by
    rw [origin?, held]
    exact same
  cases call with
  | renameTable former resulting =>
      refine Or.inr ?_
      rw [run] at found
      split at found
      · next columns renamed =>
          obtain ⟨moved, held, named⟩ := Option.bind_eq_some_iff.1 found
          rcases eq_some_of_move held with ⟨isNew, rfl⟩ | ⟨other, held⟩
          · refine ⟨former, ?_, (if_pos rfl).trans isNew.symm⟩
            rw [origin?, renamed]
            exact named
          · exact ⟨table, kept held named, if_neg other⟩
      · next absent =>
          have other : table ≠ former := by
            rintro rfl
            rw [origin?, absent] at found
            cases found
          exact ⟨table, found, if_neg other⟩
  | renameColumn scope former resulting =>
      rcases origin?_change found with before | ⟨columns, rfl, held, changed⟩
      · exact Or.inr ⟨table, before, rfl⟩
      · split at changed
        · rcases eq_some_of_move changed with ⟨rfl, given⟩ | ⟨-, same⟩
          · exact Or.inl ⟨former, rfl, (Option.some.inj given).symm⟩
          · exact Or.inr ⟨table, kept held same, rfl⟩
        · exact Or.inr ⟨table, kept held changed, rfl⟩
  | dropColumn scope dropped =>
      refine Or.inr ⟨table, ?_, rfl⟩
      rcases origin?_change found with before | ⟨columns, rfl, held, changed⟩
      · exact before
      · rw [Function.update_apply] at changed
        split at changed
        · cases changed
        · exact kept held changed

/-- Where a call gave a column its name, it is the rename of a column to this name, in the table
that has become the one of the column. -/
def Traced (done : List SchemaCall) (schema : Schema) : Prop :=
  ∀ table name given, schema.origin? table name = some (some given) →
    ∃ earlier scope former between, done = earlier ++ .renameColumn scope former name :: between ∧
      earlier.length = given ∧ SchemaCall.tableAfter scope between = table

theorem traced_ofTables (tables : Text → Option (List Text)) : Traced [] (ofTables tables) := by
  intro table name given found
  rw [origin?, ofTables, Option.bind_map] at found
  obtain ⟨names, -, found⟩ := Option.bind_eq_some_iff.1 found
  simp only [Function.comp_apply] at found
  split at found <;> cases found

theorem Traced.run {done : List SchemaCall} (traced : Traced done schema) (call : SchemaCall) :
    Traced (done ++ [call]) (schema.run done.length call) := by
  intro table name given found
  rcases origin?_run found with ⟨former, rfl, rfl⟩ | ⟨old, found, carried⟩
  · exact ⟨done, table, former, [], rfl, rfl, rfl⟩
  · obtain ⟨earlier, scope, former, between, rfl, number, after⟩ := traced old name given found
    refine ⟨earlier, scope, former, between ++ [call], by simp, number, ?_⟩
    rw [SchemaCall.tableAfter_concat, after]
    exact carried

theorem Traced.replayFrom {done : List SchemaCall} (traced : Traced done schema)
    (calls : List SchemaCall) : Traced (done ++ calls) (schema.replayFrom done.length calls) := by
  induction calls generalizing done schema with
  | nil =>
      rw [List.append_nil]
      exact traced
  | cons call rest ih =>
      have behind := ih (traced.run call)
      rw [List.append_assoc, List.length_append] at behind
      exact behind

theorem traced_replay (tables : Text → Option (List Text)) (calls : List SchemaCall) :
    Traced calls (replay tables calls) :=
  (traced_ofTables tables).replayFrom calls

end Schema

/-! ## Hazards -/

namespace WrittenCall

open Text (width sameIgnoringCase)

variable {before between after earlier : List WrittenCall} {renameCall dropCall : WrittenCall}
  {table scope former name : Text} {back : Text}

theorem offset_lt (before between : List WrittenCall) (first second : WrittenCall) :
    offset before first < offset (before ++ first :: between) second := by
  have inside := congrArg width (textOf_split before first between second.front)
  have called : 0 < width first.called := by
    rw [called, WrittenArguments.call, Text.width_cons]
    exact Nat.add_pos_left (Char.utf8Size_pos _) _
  rw [offset, offset, inside]
  simp only [Text.width_append]
  omega

/-- A rename and a drop of the same name are a hazard exactly if the tables are named alike. -/
theorem mem_find_textOf_iff {resulting : Text}
    (renames : renameCall.call = .renameColumn scope former resulting)
    (drops : dropCall.call = .dropColumn table name) (earlier between after : List WrittenCall)
    (back : Text) :
    (⟨⟨.column, some scope, some former, resulting, offset earlier renameCall⟩,
        ⟨.column, some table, name, offset (earlier ++ renameCall :: between) dropCall⟩⟩ : Hazard) ∈
        Hazard.find (textOf ((earlier ++ renameCall :: between) ++ dropCall :: after) ++ back) ↔
      sameIgnoringCase name resulting = true ∧ sameIgnoringCase scope table = true := by
  have isRename := mem_renameEvents_textOf earlier renameCall (between ++ dropCall :: after) back
    (by rw [renames]; rfl)
  have isDrop := mem_dropEvents_textOf (earlier ++ renameCall :: between) dropCall after back
    (by rw [drops]; rfl)
  rw [← List.cons_append, ← List.append_assoc] at isRename
  have later := offset_lt earlier between renameCall dropCall
  rw [Hazard.mem_find_iff]
  simp only [isRename, isDrop, Hazard.applies, Hazard.scopesAgree, true_and, Bool.and_eq_true,
    decide_eq_true_eq, later]

/-- Where no other dot stands, the renames before a call are those of the calls before it. -/
theorem exists_earlier {event : RenameEvent}
    (undotted : ∀ written ∈ before ++ dropCall :: after, written.Undotted)
    (backUndotted : '.' ∉ back)
    (drops : dropCall.call = .dropColumn table name)
    (renamed : event ∈ renameEvents (textOf (before ++ dropCall :: after) ++ back))
    (order : event.position < offset before dropCall) :
    ∃ earlier renameCall between, before = earlier ++ renameCall :: between ∧
      renameCall.call.rename? (offset earlier renameCall) = some event := by
  obtain ⟨earlier, renameCall, later, split, made⟩ :=
    (mem_renameEvents_textOf_iff undotted backUndotted).1 renamed
  rw [SchemaCall.position_of_rename? made] at order
  have notDrop : dropCall ≠ renameCall := by
    rintro rfl
    rw [drops] at made
    cases made
  rcases List.append_eq_append_iff.1 split with ⟨between, rfl, behind⟩ | ⟨between, rfl, behind⟩
  · cases between with
    | nil => exact absurd (List.cons.inj behind).1 notDrop
    | cons next between =>
        obtain ⟨rfl, -⟩ := List.cons.inj behind
        exact absurd (offset_lt before between dropCall renameCall) (Nat.lt_asymm order)
  · cases between with
    | nil => exact absurd (List.cons.inj behind).1.symm notDrop
    | cons next between =>
        obtain ⟨rfl, -⟩ := List.cons.inj behind
        exact ⟨earlier, renameCall, between, rfl, made⟩

end WrittenCall

open WrittenCall (textOf offset)

/-- A drop of a column whose name a call before it gave is reported for this call exactly if its
table still has, up to case, the name that it has there.  Where neither names nor the texts between
the calls hold a dot, it is reported at all exactly if a rename before it gives that name in a table
of that name. -/
theorem replayed_drop_reported (tables : Text → Option (List Text)) (before after : List WrittenCall)
    (dropCall : WrittenCall) (back : Text) {table name : Text} {number : Nat}
    (drops : dropCall.call = .dropColumn table name)
    (produced : (Schema.replay tables (before.map (·.call))).origin? table name =
      some (some number)) :
    let text := textOf (before ++ dropCall :: after) ++ back
    let drop : DropEvent := ⟨.column, some table, name, offset before dropCall⟩
    drop ∈ dropEvents text ∧
      (∃ earlier renameCall between scope former, before = earlier ++ renameCall :: between ∧
        earlier.length = number ∧ renameCall.call = .renameColumn scope former name ∧
        table = SchemaCall.tableAfter scope (between.map (·.call)) ∧
        let rename : RenameEvent :=
          ⟨.column, some scope, some former, name, offset earlier renameCall⟩
        (⟨rename, drop⟩ ∈ Hazard.find text ↔ Text.sameIgnoringCase scope table = true)) ∧
      ((∀ written ∈ before ++ dropCall :: after, written.Undotted) → '.' ∉ back →
        ((∃ hazard ∈ Hazard.find text, hazard.drop = drop) ↔
          ∃ renameCall ∈ before, ∃ scope former resulting,
            renameCall.call = .renameColumn scope former resulting ∧
              Text.sameIgnoringCase name resulting = true ∧
              Text.sameIgnoringCase scope table = true)) := by
  intro text drop
  have isDrop : drop ∈ dropEvents text :=
    WrittenCall.mem_dropEvents_textOf before dropCall after back (by rw [drops]; rfl)
  refine ⟨isDrop, ?_, fun undotted backUndotted => ⟨?_, ?_⟩⟩
  · obtain ⟨earlierCalls, scope, former, betweenCalls, split, count, carried⟩ :=
      Schema.traced_replay tables _ _ _ _ produced
    obtain ⟨earlier, rest, rfl, rfl, behind⟩ := List.map_eq_append_iff.1 split
    obtain ⟨renameCall, between, rfl, renames, rfl⟩ := List.map_eq_cons_iff.1 behind
    refine ⟨earlier, renameCall, between, scope, former, rfl, by simpa using count, renames,
      carried.symm, ?_⟩
    have same : Text.sameIgnoringCase name name = true := beq_self_eq_true _
    exact (WrittenCall.mem_find_textOf_iff renames drops earlier between after back).trans
      (and_iff_right same)
  · rintro ⟨⟨rename, _⟩, found, rfl⟩
    obtain ⟨renamed, -, applies⟩ := Hazard.mem_find_iff.1 found
    simp only [Hazard.applies, Bool.and_eq_true, decide_eq_true_eq] at applies
    obtain ⟨⟨⟨kind, order⟩, sameName⟩, scopes⟩ := applies
    obtain ⟨earlier, renameCall, between, rfl, made⟩ :=
      WrittenCall.exists_earlier undotted backUndotted drops renamed order
    refine ⟨renameCall, by simp, ?_⟩
    cases call : renameCall.call with
    | renameColumn scope former resulting =>
        rw [call] at made
        cases made
        exact ⟨scope, former, resulting, rfl, sameName, scopes⟩
    | renameTable | dropColumn =>
        rw [call] at made
        cases made <;> cases kind
  · rintro ⟨renameCall, member, scope, former, resulting, renames, sameName, sameTable⟩
    obtain ⟨earlier, between, rfl⟩ := List.append_of_mem member
    exact ⟨_, (WrittenCall.mem_find_textOf_iff renames drops earlier between after back).2
      ⟨sameName, sameTable⟩, rfl⟩

namespace Sample

/-- A table with a column. -/
def oneTable (table : Text) : Option (List Text) := if table = ['t'] then some [['a']] else none

def renameColumn : WrittenCall where
  lead := []
  call := .renameColumn ['t'] ['a'] ['b']
  written := .named [("name".toList, laidOut ['a'] (by decide)),
    ("table".toList, laidOut ['t'] (by decide)), ("newName".toList, laidOut ['b'] (by decide))]
    (by decide) (by decide)
  given := fun _ => rfl

def renameTable : WrittenCall where
  lead := ";\n".toList
  call := .renameTable ['t'] ['u']
  written := .named [("name".toList, laidOut ['t'] (by decide)),
    ("newName".toList, laidOut ['u'] (by decide))] (by decide) (by decide)
  given := fun _ => rfl

/-- The table gets its name back, in a capital letter. -/
def renameBack : WrittenCall where
  lead := ";\n".toList
  call := .renameTable ['u'] ['T']
  written := .named [("name".toList, laidOut ['u'] (by decide)),
    ("newName".toList, laidOut ['T'] (by decide))] (by decide) (by decide)
  given := fun _ => rfl

def dropColumn (table : Text) (unbroken : '\n' ∉ table) : WrittenCall where
  lead := ";\n".toList
  call := .dropColumn table ['b']
  written := .named [("name".toList, laidOut ['b'] (by decide)),
    ("table".toList, laidOut table unbroken)]
    (by simp [SchemaCall.parameters, EntityKind.dropParameters]) (by simp)
  given := fun _ => rfl

end Sample

/-- The drop of a renamed column whose table has got its name back. -/
theorem replayed_drop_reported_sample :
    let before := [Sample.renameColumn, Sample.renameTable, Sample.renameBack]
    let dropCall := Sample.dropColumn ['T'] (by decide)
    let drop : DropEvent := ⟨.column, some ['T'], ['b'], offset before dropCall⟩
    (Schema.replay Sample.oneTable (before.map (·.call))).origin? ['T'] ['b'] = some (some 0) ∧
      ∃ hazard ∈ Hazard.find (textOf (before ++ [dropCall]) ++ [';']), hazard.drop = drop := by
  intro before dropCall drop
  have produced : (Schema.replay Sample.oneTable (before.map (·.call))).origin? ['T'] ['b'] =
      some (some 0) := by decide
  obtain ⟨-, -, reported⟩ :=
    replayed_drop_reported Sample.oneTable before [] dropCall [';'] rfl produced
  refine ⟨produced, (reported ?_ (by decide)).2
    ⟨Sample.renameColumn, List.mem_cons_self, ['t'], ['a'], ['b'], rfl, by decide, by decide⟩⟩
  intro written member
  constructor <;> revert written <;> decide

/-- A drop of a column whose name a call before it gave is not reported where its table has another
name by then. -/
theorem renamed_table_hides_drop :
    let before := [Sample.renameColumn, Sample.renameTable]
    let dropCall := Sample.dropColumn ['u'] (by decide)
    (Schema.replay Sample.oneTable (before.map (·.call))).origin? ['u'] ['b'] = some (some 0) ∧
      Hazard.find (textOf (before ++ [dropCall]) ++ [';']) = [] := by
  intro before dropCall
  refine ⟨by decide, List.eq_nil_iff_forall_not_mem.2 fun hazard member => ?_⟩
  obtain ⟨renamed, dropped, applies⟩ := Hazard.mem_find_iff.1 member
  -- The order of the events has no part in the rule, and only without it the events are computed.
  rw [renameEvents, List.mem_mergeSort] at renamed
  rw [dropEvents, List.mem_mergeSort] at dropped
  revert applies
  generalize hazard.rename = rename at renamed
  generalize hazard.drop = drop at dropped
  revert rename drop
  decide +kernel

end MigrationSquash
