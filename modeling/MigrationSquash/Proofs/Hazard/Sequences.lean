import MigrationSquash.Proofs.Hazard.Written

/-!
# Sequences of calls

Calls that rename tables and columns and drop columns, written one after the other with any texts
between them.  Each call is read as the event it stands for.  Main statements: a rename or a drop is
found for each of the calls, and for nothing else if neither the names nor the texts between the
calls hold a dot.
-/

set_option autoImplicit false

namespace MigrationSquash

open Text (AllBlank width)

/-- A call on the tables and columns of a database without named schemas. -/
inductive SchemaCall where
  | renameTable (former resulting : Text)
  | renameColumn (table former resulting : Text)
  | dropColumn (table name : Text)
  deriving DecidableEq, Repr

namespace SchemaCall

def method : SchemaCall → Text
  | renameTable _ _ => EntityKind.table.renameMethod
  | renameColumn _ _ _ => EntityKind.column.renameMethod
  | dropColumn _ _ => EntityKind.column.dropMethod

def parameters : SchemaCall → List Text
  | renameTable _ _ => EntityKind.table.renameParameters
  | renameColumn _ _ _ => EntityKind.column.renameParameters
  | dropColumn _ _ => EntityKind.column.dropParameters

/-- What is given for the parameters. -/
def arguments : SchemaCall → List (Text × Text)
  | renameTable former resulting => [("name".toList, former), ("newName".toList, resulting)]
  | renameColumn table former resulting =>
      [("name".toList, former), ("table".toList, table), ("newName".toList, resulting)]
  | dropColumn table name => [("name".toList, name), ("table".toList, table)]

/-- The values of the call as they are read. -/
def values (call : SchemaCall) : List (Text × Option Text) :=
  call.parameters.map fun p => (p, call.arguments.lookup p)

/-- The rename that the call at a position is. -/
def rename? (position : Nat) : SchemaCall → Option RenameEvent
  | renameTable former resulting => some ⟨.table, none, some former, resulting, position⟩
  | renameColumn table former resulting =>
      some ⟨.column, some table, some former, resulting, position⟩
  | dropColumn _ _ => none

/-- The drop that the call at a position is. -/
def drop? (position : Nat) : SchemaCall → Option DropEvent
  | dropColumn table name => some ⟨.column, some table, name, position⟩
  | renameTable _ _ | renameColumn _ _ _ => none

theorem position_of_rename? {call : SchemaCall} {position : Nat} {event : RenameEvent}
    (made : call.rename? position = some event) : event.position = position := by
  cases call with
  | renameTable | renameColumn =>
      cases made
      rfl
  | dropColumn => cases made

theorem position_of_drop? {call : SchemaCall} {position : Nat} {event : DropEvent}
    (made : call.drop? position = some event) : event.position = position := by
  cases call with
  | renameTable | renameColumn => cases made
  | dropColumn =>
      cases made
      rfl

theorem isParameter (call : SchemaCall) : ∀ p ∈ call.parameters, IsParameter p := by
  cases call with
  | renameTable => exact (EntityKind.isParameter .table).1
  | renameColumn => exact (EntityKind.isParameter .column).1
  | dropColumn => exact (EntityKind.isParameter .column).2

theorem nodup_parameters (call : SchemaCall) : call.parameters.Nodup := by
  cases call with
  | renameTable => exact (EntityKind.nodup_parameters .table).1
  | renameColumn => exact (EntityKind.nodup_parameters .column).1
  | dropColumn => exact (EntityKind.nodup_parameters .column).2

theorem dot_notMem_method (call : SchemaCall) : '.' ∉ call.method := by
  cases call with
  | renameTable => exact (by decide : '.' ∉ EntityKind.table.renameMethod)
  | renameColumn => exact (by decide : '.' ∉ EntityKind.column.renameMethod)
  | dropColumn => exact (by decide : '.' ∉ EntityKind.column.dropMethod)

theorem shown_method (call : SchemaCall) : call.method.head?.any (!Text.isBlank ·) = true := by
  cases call with
  | renameTable => exact EntityKind.table.shown_renameMethod
  | renameColumn => exact EntityKind.column.shown_renameMethod
  | dropColumn => exact EntityKind.column.shown_dropMethod

end SchemaCall

/-- A call with its arguments written out, behind a text of any kind. -/
structure WrittenCall where
  lead : Text
  call : SchemaCall
  written : WrittenArguments call.parameters
  given : ∀ parameter, written.value? parameter = call.arguments.lookup parameter

theorem Call.Opens.unique {method s : Text} {parameters : List Text}
    {values others : List (Text × Option Text)}
    (shown : method.head?.any (!Text.isBlank ·) = true)
    (opens : Call.Opens method parameters values s)
    (opensOther : Call.Opens method parameters others s) : values = others := by
  have found : Call.at? method parameters 0 s = some ⟨0, values⟩ :=
    (Call.at?_eq_some_iff shown).2 ⟨rfl, opens⟩
  have foundOther : Call.at? method parameters 0 s = some ⟨0, others⟩ :=
    (Call.at?_eq_some_iff shown).2 ⟨rfl, opensOther⟩
  exact congrArg Call.values (Option.some.inj (found.symm.trans foundOther))

/-- A call is not read as one of another method. -/
theorem not_opens_of_afterOpening? {method s : Text} {parameters : List Text}
    {values : List (Text × Option Text)} (shown : method.head?.any (!Text.isBlank ·) = true)
    (other : Call.afterOpening? method s = none) : ¬ Call.Opens method parameters values s := by
  rintro ⟨behindDot, behindName, inside, _, _, dotBlank, nameBlank, split, _⟩
  have opening := (Call.afterOpening?_eq_some_iff shown).2
    ⟨behindDot, behindName, dotBlank, nameBlank, split⟩
  rw [other] at opening
  cases opening

namespace WrittenCall

/-- What stands before the dot of the call. -/
def front (written : WrittenCall) : Text := written.lead ++ receiver

/-- The call from its dot on. -/
def called (written : WrittenCall) : Text := written.written.call written.call.method

def text (written : WrittenCall) : Text := written.front ++ written.called

def textOf (calls : List WrittenCall) : Text := calls.flatMap text

/-- The position of a call behind others. -/
def offset (before : List WrittenCall) (written : WrittenCall) : Nat :=
  width (textOf before ++ written.front)

variable {written : WrittenCall} {back : Text}

theorem opens_called : Call.Opens written.call.method written.call.parameters written.call.values
    (written.called ++ back) := by
  have opens := written.written.opens_call written.call.method written.call.isParameter
    written.call.nodup_parameters back
  simp only [written.given] at opens
  exact opens

/-- The call is read in one way only. -/
theorem exists_values_iff {Event : Type} (written : WrittenCall) (back : Text)
    (read : Call → Option Event) (position : Nat) (event : Event) :
    (∃ values, Call.Opens written.call.method written.call.parameters values
        (written.called ++ back) ∧ read ⟨position, values⟩ = some event) ↔
      read ⟨position, written.call.values⟩ = some event := by
  constructor
  · rintro ⟨values, opens, made⟩
    obtain rfl := opens.unique written.call.shown_method opens_called
    exact made
  · intro made
    exact ⟨_, opens_called, made⟩

theorem opens_rename_iff {event : RenameEvent} :
    event.Opens (written.called ++ back) ↔ written.call.rename? event.position = some event := by
  have read := written.exists_values_iff back (Call.rename? event.kind) event.position event
  have other (unread : Call.afterOpening? event.kind.renameMethod (written.called ++ back) = none) :
      ¬ event.Opens (written.called ++ back) := fun ⟨_, opens, _⟩ =>
    not_opens_of_afterOpening? event.kind.shown_renameMethod unread opens
  obtain ⟨kind, scope, former, resulting, position⟩ := event
  obtain ⟨lead, call, arguments, given⟩ := written
  cases call with
  | renameTable =>
    cases kind with
    | table => exact read
    | column | index => exact iff_of_false (other rfl) nofun
  | renameColumn =>
    cases kind with
    | column => exact read
    | table | index => exact iff_of_false (other rfl) nofun
  | dropColumn =>
    cases kind <;> exact iff_of_false (other rfl) nofun

theorem opens_drop_iff {event : DropEvent} :
    event.Opens (written.called ++ back) ↔ written.call.drop? event.position = some event := by
  have read := written.exists_values_iff back (Call.drop? event.kind) event.position event
  have other (unread : Call.afterOpening? event.kind.dropMethod (written.called ++ back) = none) :
      ¬ event.Opens (written.called ++ back) := fun ⟨_, opens, _⟩ =>
    not_opens_of_afterOpening? event.kind.shown_dropMethod unread opens
  obtain ⟨kind, scope, dropped, position⟩ := event
  obtain ⟨lead, call, arguments, given⟩ := written
  cases call with
  | dropColumn =>
    cases kind with
    | column => exact read
    | table | index => exact iff_of_false (other rfl) nofun
  | renameTable | renameColumn =>
    cases kind <;> exact iff_of_false (other rfl) nofun

/-! ## Events -/

section Events

variable {calls before after : List WrittenCall}

theorem textOf_append (before after : List WrittenCall) :
    textOf (before ++ after) = textOf before ++ textOf after := List.flatMap_append

theorem textOf_cons (written : WrittenCall) (after : List WrittenCall) :
    textOf (written :: after) = written.front ++ (written.called ++ textOf after) := by
  rw [textOf, List.flatMap_cons, text, List.append_assoc]
  rfl

/-- The text up to a call and from the call on. -/
theorem textOf_split (before : List WrittenCall) (written : WrittenCall)
    (after : List WrittenCall) (back : Text) :
    textOf (before ++ written :: after) ++ back =
      (textOf before ++ written.front) ++ (written.called ++ (textOf after ++ back)) := by
  rw [textOf_append, textOf_cons]
  simp only [List.append_assoc]

theorem mem_renameEvents_textOf {event : RenameEvent} (before : List WrittenCall)
    (written : WrittenCall) (after : List WrittenCall) (back : Text)
    (made : written.call.rename? (offset before written) = some event) :
    event ∈ renameEvents (textOf (before ++ written :: after) ++ back) := by
  have position := SchemaCall.position_of_rename? made
  refine mem_renameEvents_iff.2 ⟨_, _, textOf_split before written after back, position, ?_⟩
  rw [opens_rename_iff, position]
  exact made

theorem mem_dropEvents_textOf {event : DropEvent} (before : List WrittenCall)
    (written : WrittenCall) (after : List WrittenCall) (back : Text)
    (made : written.call.drop? (offset before written) = some event) :
    event ∈ dropEvents (textOf (before ++ written :: after) ++ back) := by
  have position := SchemaCall.position_of_drop? made
  refine mem_dropEvents_iff.2 ⟨_, _, textOf_split before written after back, position, ?_⟩
  rw [opens_drop_iff, position]
  exact made

/-- The call holds no dot but its first character, and the text before it none at all. -/
structure Undotted (written : WrittenCall) : Prop where
  lead : '.' ∉ written.lead
  inside : '.' ∉ written.written.text

theorem exists_eq_append_of_notMem {c : Char} {s back front rest : Text} (absent : c ∉ s)
    (split : s ++ back = front ++ c :: rest) :
    ∃ later, front = s ++ later ∧ back = later ++ c :: rest := by
  rcases List.append_eq_append_iff.1 split with ⟨later, rfl, rfl⟩ | ⟨later, rfl, behind⟩
  · exact ⟨later, rfl, rfl⟩
  · cases later with
    | nil => exact ⟨[], by simp, by simpa using behind.symm⟩
    | cons d more =>
        obtain ⟨rfl, -⟩ := List.cons.inj behind
        exact absurd (List.mem_append_right front List.mem_cons_self) absent

/-- Each dot of the text starts one of the calls. -/
theorem exists_call_of_dot (undotted : ∀ written ∈ calls, written.Undotted) {back front rest : Text}
    (backUndotted : '.' ∉ back) (split : textOf calls ++ back = front ++ '.' :: rest) :
    ∃ before written after, calls = before ++ written :: after ∧
      front = textOf before ++ written.front ∧
      '.' :: rest = written.called ++ (textOf after ++ back) := by
  induction calls generalizing front with
  | nil =>
      rw [textOf, List.flatMap_nil, List.nil_append] at split
      rw [split] at backUndotted
      exact absurd (List.mem_append_right front List.mem_cons_self) backUndotted
  | cons written others ih =>
      obtain ⟨leadUndotted, insideUndotted⟩ := undotted written List.mem_cons_self
      have frontUndotted : '.' ∉ written.front := by
        rw [WrittenCall.front, List.mem_append, not_or]
        exact ⟨leadUndotted, by decide⟩
      have insideCall : '.' ∉ written.call.method ++ '(' :: (written.written.text ++ [')']) := by
        simp [written.call.dot_notMem_method, insideUndotted]
      rw [textOf_cons, List.append_assoc, List.append_assoc] at split
      obtain ⟨later, rfl, here⟩ := exists_eq_append_of_notMem frontUndotted split
      cases later with
      | nil => exact ⟨[], written, others, rfl, List.append_nil _, here.symm⟩
      | cons d more =>
          obtain ⟨rfl, behind⟩ := List.cons.inj here
          obtain ⟨later, rfl, there⟩ := exists_eq_append_of_notMem insideCall behind
          obtain ⟨before, next, after, rfl, rfl, found⟩ :=
            ih (fun next member => undotted next (List.mem_cons_of_mem _ member)) there
          refine ⟨written :: before, next, after, rfl, ?_, found⟩
          rw [textOf_cons]
          simp [called, WrittenArguments.call]

/-- Where no other dot stands, the renames are those of the calls. -/
theorem mem_renameEvents_textOf_iff (undotted : ∀ written ∈ calls, written.Undotted) {back : Text}
    (backUndotted : '.' ∉ back) {event : RenameEvent} :
    event ∈ renameEvents (textOf calls ++ back) ↔
      ∃ before written after, calls = before ++ written :: after ∧
        written.call.rename? (offset before written) = some event := by
  constructor
  · intro member
    obtain ⟨front, rest, split, position, opens⟩ := mem_renameEvents_iff.1 member
    obtain ⟨inside, rfl⟩ : ∃ inside, rest = '.' :: inside := by
      obtain ⟨_, ⟨_, _, _, _, _, _, _, rfl, _⟩, _⟩ := opens
      exact ⟨_, rfl⟩
    obtain ⟨before, written, after, rfl, rfl, here⟩ :=
      exists_call_of_dot undotted backUndotted split
    refine ⟨before, written, after, rfl, ?_⟩
    rw [here, opens_rename_iff, position] at opens
    exact opens
  · rintro ⟨before, written, after, rfl, made⟩
    exact mem_renameEvents_textOf before written after back made

end Events

end WrittenCall

end MigrationSquash
