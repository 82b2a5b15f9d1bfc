import MigrationSquash.Code.Arguments

/-!
# Renames and drops

The calls in merged code that give a table, a column or an index another name or drop it.
-/

set_option autoImplicit false

namespace MigrationSquash

inductive EntityKind where
  | table
  | column
  | index
  deriving DecidableEq, Repr

namespace EntityKind

def all : List EntityKind := [table, column, index]

def name : EntityKind → Text
  | table => "table".toList
  | column => "column".toList
  | index => "index".toList

/-- The name of the kind inside the names of methods. -/
def methodPart : EntityKind → Text
  | table => "Table".toList
  | column => "Column".toList
  | index => "Index".toList

def renameMethod (kind : EntityKind) : Text := "Rename".toList ++ kind.methodPart

def dropMethod (kind : EntityKind) : Text := "Drop".toList ++ kind.methodPart

/-- The parameters of the method that renames, in their order. -/
def renameParameters : EntityKind → List Text
  | table => ["name".toList, "schema".toList, "newName".toList, "newSchema".toList]
  | column => ["name".toList, "table".toList, "newName".toList, "schema".toList]
  | index => ["name".toList, "newName".toList, "table".toList, "schema".toList]

/-- The parameters of the method that drops, in their order. -/
def dropParameters : EntityKind → List Text
  | table => ["name".toList, "schema".toList]
  | column => ["name".toList, "table".toList, "schema".toList]
  | index => ["name".toList, "table".toList, "schema".toList]

/-- The parameters that give what a renamed entity belongs to afterwards, the most
specific one first. -/
def renameScope : EntityKind → List Text
  | table => ["newSchema".toList, "schema".toList]
  | column => ["table".toList]
  | index => ["table".toList]

/-- The parameter that gives what a dropped entity belongs to. -/
def dropScope : EntityKind → Text
  | table => "schema".toList
  | column => "table".toList
  | index => "table".toList

end EntityKind

structure RenameEvent where
  kind : EntityKind
  scope : Option Text
  former : Option Text
  resulting : Text
  position : Nat
  deriving DecidableEq, Repr

structure DropEvent where
  kind : EntityKind
  scope : Option Text
  dropped : Text
  position : Nat
  deriving DecidableEq, Repr

/-- A call of a method: its offset in the text and the value of each parameter. -/
structure Call where
  position : Nat
  values : List (Text × Option Text)
  deriving DecidableEq, Repr

namespace Call

/-- What follows `.method(`, with blanks between its parts. -/
def afterOpening? (method s : Text) : Option Text := do
  let rest ← Text.after? ['.'] s
  let rest ← Text.after? method (Text.trimStart rest)
  Text.after? ['('] (Text.trimStart rest)

/-- The call at the start of a text that starts at `offset`. -/
def at? (method : Text) (parameters : List Text) (offset : Nat) (s : Text) : Option Call := do
  let inside ← afterOpening? method s
  let (arguments, _) ← Code.argumentsFrom? (offset + (Text.width s - Text.width inside)) inside
  let values := (Code.bind parameters arguments).map (·.bind Code.literalValue)
  return ⟨offset, parameters.zip values⟩

/-- The calls of a method in a text that starts at `offset`. -/
def collectFrom (method : Text) (parameters : List Text) : Nat → Text → List Call
  | _, [] => []
  | offset, c :: rest =>
      (at? method parameters offset (c :: rest)).toList ++
        collectFrom method parameters (offset + c.utf8Size) rest

def collect (method : Text) (parameters : List Text) (s : Text) : List Call :=
  collectFrom method parameters 0 s

/-- The value of a parameter. -/
def value? (call : Call) (parameter : Text) : Option Text :=
  (call.values.lookup parameter).join

/-- What a call of a renaming method does.  Without a new name the entity keeps its own;
a call without any name does nothing. -/
def rename? (kind : EntityKind) (call : Call) : Option RenameEvent :=
  let former := call.value? "name".toList
  ((call.value? "newName".toList).or former).map fun resulting =>
    { kind, former, resulting
      scope := kind.renameScope.findSome? call.value?
      position := call.position }

/-- What a call of a dropping method does. -/
def drop? (kind : EntityKind) (call : Call) : Option DropEvent :=
  (call.value? "name".toList).map fun dropped =>
    { kind, dropped
      scope := call.value? kind.dropScope
      position := call.position }

end Call

/-- The renames in a text, in the order of their positions. -/
def renameEvents (s : Text) : List RenameEvent :=
  let events := EntityKind.all.flatMap fun kind =>
    (Call.collect kind.renameMethod kind.renameParameters s).filterMap (Call.rename? kind)
  events.mergeSort fun left right => left.position ≤ right.position

/-- The drops in a text, in the order of their positions. -/
def dropEvents (s : Text) : List DropEvent :=
  let events := EntityKind.all.flatMap fun kind =>
    (Call.collect kind.dropMethod kind.dropParameters s).filterMap (Call.drop? kind)
  events.mergeSort fun left right => left.position ≤ right.position

end MigrationSquash
