import MigrationSquash.Proofs.Script.Passes

/-!
# Outlines of scripts

A script that brings a database from one migration to another is a sequence of texts: blocks that
make sure of a schema, perhaps the creation of the history table, and the transactions of the
migrations, each with its own statements and the record it leaves in the history table.  Here
these texts are described, with what each of them must not hold so that a search does not mistake
it for another one.
-/

set_option autoImplicit false

namespace MigrationSquash.Script

open Text (AllBlank isBlank isWord pieces)

/-- A name of letters, digits and underscores. -/
structure Identifier (name : Text) : Prop where
  nonempty : name ≠ []
  word : ∀ c ∈ name, isWord c = true

/-- A text without a line that controls a transaction. -/
def Uncontrolled (s : Text) : Prop := ∀ line ∈ pieces s, transactionControl? line = none

instance (s : Text) : Decidable (Uncontrolled s) :=
  inferInstanceAs (Decidable (∀ line ∈ pieces s, transactionControl? line = none))

/-- What encloses the statements of a block. -/
def blockMarker : Text := "$EF$".toList

def opensBlock : Pattern := phrase ["DO".toList, blockMarker]

def opensGuard : Pattern := phrase ["IF".toList, "OBJECT_ID".toList]

def opensTable : Pattern := phrase ["CREATE".toList, "TABLE".toList]

/-- The block around some statements. -/
def enclose (inner : Text) : Text := "DO $EF$".toList ++ (inner ++ "END $EF$;".toList)

/-- A block that makes sure of a schema. -/
structure Block where
  inner : Text
  schema : Text.containsIgnoringCase inner "pg_namespace".toList = true
  whole : Lacks (.word blockMarker) inner
  uncontrolled : Uncontrolled (enclose inner)

def Block.text (block : Block) : Text := enclose block.inner

/-- A statement of a migration, where `table` records the migrations. -/
structure Statement (table : Text) where
  text : Text
  trimmed : Trimmed text
  ends : text.getLast? = some ';'
  uncontrolled : Uncontrolled text
  unseparated : ∀ line ∈ pieces text, isSeparator line = false
  apart : Lacks (.word table) text
  unguarded : Lacks (.word "OBJECT_ID".toList) text
  block : Lacks (.word blockMarker) text ∨ ∃ block : Block, block.text = text

/-- The depth of parentheses at the end of a text that starts inside `depth` of them and perhaps
inside quotes, unless it closes one too many or leaves a quote open. -/
def depthBehind? : Nat → Option Char → Text → Option Nat
  | depth, none, [] => some depth
  | _, some _, [] => none
  | depth, some quote, c :: rest =>
      depthBehind? depth (if c = quote then none else some quote) rest
  | depth, none, c :: rest =>
      if c = '\'' || c = '"' then depthBehind? depth (some c) rest
      else if c = '(' then depthBehind? (depth + 1) none rest
      else if c = ')' then
        match depth with
        | 0 => none
        | outer + 1 => depthBehind? outer none rest
      else depthBehind? depth none rest

/-- A text with balanced parentheses and quotes. -/
def Balanced (s : Text) : Prop := depthBehind? 0 none s = some 0

instance (s : Text) : Decidable (Balanced s) := inferInstanceAs (Decidable (_ = _))

def creation (table columns : Text) : Text :=
  "CREATE TABLE IF NOT EXISTS ".toList ++
    ('"' :: (table ++ ('"' :: ' ' :: '(' :: (columns ++ [')', ';']))))

/-- What the history table is created with. -/
structure Definition (table : Text) where
  columns : Text
  balanced : Balanced columns
  unopened : ∀ line ∈ pieces (creation table columns), transactionControl? line ≠ some .start
  block : Lacks opensBlock columns
  guard : Lacks opensGuard columns

def Definition.text {table : Text} (definition : Definition table) : Text :=
  creation table definition.columns

/-- What ends a bracketed or quoted name before a dot. -/
def Dotted (read : Text) : Prop :=
  ∃ close blanks, read = close :: (blanks ++ ['.']) ∧ (close = ']' ∨ close = '"') ∧ AllBlank blanks

/-- A text in which no bracketed or quoted name ends before a dot. -/
def Undotted (s : Text) : Prop := ∀ read, Dotted read → ¬ read <:+: s

/-- What stands between quotes in a record of a migration. -/
structure Value where
  text : Text
  plain : ∀ c ∈ text, c ≠ '\'' ∧ c ≠ '"' ∧ c ≠ '\n'
  undotted : Undotted text
  block : Lacks opensBlock text
  guard : Lacks opensGuard text
  creation : Lacks opensTable text

/-- What is done with the record of a migration. -/
inductive Record where
  | insertion (idColumn versionColumn : {name : Text // Identifier name})
      (gap : {gap : Text // AllBlank gap}) (id version : Value)
  | deletion (gap : {gap : Text // AllBlank gap}) (id : Value)

namespace Record

/-- The words before the name of the table. -/
def verb : Record → Text × Text
  | insertion .. => ("INSERT".toList, "INTO".toList)
  | deletion .. => ("DELETE".toList, "FROM".toList)

/-- The text up to the first value. -/
def front : Record → Text
  | insertion idColumn versionColumn gap _ _ =>
      " (\"".toList ++ (idColumn.1 ++ ("\", \"".toList ++ (versionColumn.1 ++ ("\")".toList ++
        (gap.1 ++ "VALUES (".toList)))))
  | deletion gap _ => gap.1 ++ "WHERE \"MigrationId\" = ".toList

/-- The values and what stands between them. -/
def back : Record → Text
  | insertion _ _ _ id version =>
      '\'' :: (id.text ++ ("', '".toList ++ (version.text ++ "');".toList)))
  | deletion _ id => '\'' :: (id.text ++ "';".toList)

def text (table : Text) (record : Record) : Text :=
  record.verb.1 ++ (' ' :: (record.verb.2 ++ (' ' :: '"' :: (table ++
    ('"' :: (record.front ++ record.back))))))

end Record

/-- One of the texts of a script. -/
inductive Item (table : Text) where
  | preamble (block : Block)
  | creation (definition : Definition table)
  | start
  | own (statement : Statement table)
  | entry (record : Record)
  | commit

namespace Item

variable {table : Text}

def text : Item table → Text
  | preamble block => block.text
  | creation definition => definition.text
  | start => "START TRANSACTION;".toList
  | own statement => statement.text
  | entry record => record.text table
  | commit => "COMMIT;".toList

def isPreamble : Item table → Bool
  | preamble _ => true
  | _ => false

def isCreation : Item table → Bool
  | creation _ => true
  | _ => false

def isEntry : Item table → Bool
  | entry _ => true
  | _ => false

def isControl : Item table → Bool
  | start | commit => true
  | _ => false

def isOwn : Item table → Bool
  | own _ => true
  | _ => false

end Item

/-- The transaction of a migration and the preambles before it. -/
structure Stage (table : Text) where
  preambles : List Block
  statements : List (Statement table)
  record : Record

def Stage.items {table : Text} (stage : Stage table) : List (Item table) :=
  stage.preambles.map .preamble ++
    .start :: (stage.statements.map .own ++ [.entry stage.record, .commit])

/-- A whole script. -/
structure Outline (table : Text) where
  preambles : List Block
  creation : Option (Definition table)
  stages : List (Stage table)

def Outline.items {table : Text} (outline : Outline table) : List (Item table) :=
  outline.preambles.map .preamble ++
    (outline.creation.toList.map .creation ++ outline.stages.flatMap Stage.items)

end MigrationSquash.Script
