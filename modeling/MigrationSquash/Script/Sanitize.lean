import MigrationSquash.Script.Span
import MigrationSquash.Text.Lines

/-!
# Sanitized scripts

A script that brings a database from one migration to another also keeps the books about
applied migrations: it opens transactions, creates the history table and writes its rows.
Inside a migration this is done by its surroundings, so it is removed here.
-/

set_option autoImplicit false

namespace MigrationSquash.Script

/-- The table that records applied migrations unless another one is named. -/
def defaultHistoryTable : Text := "__EFMigrationsHistory".toList

inductive TransactionControl where
  | start
  | commit
  deriving DecidableEq, Repr

def skipIndent (s : Text) : Text := s.dropWhile Text.isIndent

/-- What follows `first`, blanks and `second`. -/
def afterWords? (first second s : Text) : Option Text := do
  let rest ← Text.afterFolded? first s
  let trimmed := skipIndent rest
  if trimmed.length < rest.length then Text.afterFolded? second trimmed else none

/-- What a line does to transactions, if it does nothing else. -/
def transactionControl? (line : Text) : Option TransactionControl :=
  let statement := skipIndent line
  let ends := fun (rest : Text) =>
    match skipIndent rest with
    | ';' :: tail => (skipIndent tail).isEmpty
    | _ => false
  let transaction := "TRANSACTION".toList
  let start := (afterWords? "BEGIN".toList transaction statement).or
    (afterWords? "START".toList transaction statement)
  if start.any ends then some .start
  else if (Text.afterFolded? "COMMIT".toList statement).any ends then some .commit
  else none

/-- The spans of transactions in lines that start at `position` of a text of `total`
characters; `opened` is where the transaction starts that is open. -/
def transactionsFrom (total : Nat) : Option Nat → Nat → List Text → List Span
  | none, _, [] => []
  | some start, _, [] => [⟨start, total⟩]
  | opened, position, line :: rest =>
      let next := position + line.length + 1
      match transactionControl? line, opened with
      | some .commit, some start => ⟨start, min next total⟩ :: transactionsFrom total none next rest
      | some .start, none => transactionsFrom total (some position) next rest
      | _, _ => transactionsFrom total opened next rest

/-- The spans from the start of each transaction to its end, or to the end of the text. -/
def transactions (s : Text) : List Span := transactionsFrom s.length none 0 (Text.pieces s)

/-- A block that makes sure of a schema. -/
def preamble : Pattern :=
  let marker := "$EF$".toList
  .sequence [.word "DO".toList, .someBlanks, .word marker,
    .through (.sequence [.word "END".toList, .someBlanks, .word marker, .blanks, .word [';']])]

/-- The text without the preambles of a script.  A migration that makes sure of a schema
itself does so inside its transaction, and that block stays. -/
def removePreambles (s : Text) : Text :=
  let outer := transactions s
  cut s <| (occurrences preamble s).filter fun span =>
    Text.containsIgnoringCase (span.text s) "pg_namespace".toList &&
      !outer.any span.isWithin

/-- A table name, bare or quoted, perhaps behind that of its schema. -/
def qualified (table : Text) : Pattern :=
  let bracketed := fun (inside : Pattern) => .sequence [.word ['['], inside, .word [']']]
  let quoted := fun (inside : Pattern) => .sequence [.word ['"'], inside, .word ['"']]
  let schema := Pattern.choice [bracketed (.someRun (· ≠ ']')), quoted (.someRun (· ≠ '"')),
    .someRun Text.isWord]
  .sequence [
    .optional (.sequence [schema, .blanks, .word ['.'], .blanks]),
    .choice [bracketed (.word table), quoted (.word table),
      .sequence [.boundary, .word table, .boundary]]]

/-- Words with blanks between each two of them. -/
def phrase : List Text → Pattern
  | [] => .sequence []
  | [w] => .word w
  | w :: rest => .sequence [.word w, .someBlanks, phrase rest]

/-- `IF OBJECT_ID(N'[table]') IS NULL BEGIN ... END;` -/
def guardedCreate (table : Text) : Pattern :=
  let inside := fun (c : Char) => c != '\''
  .sequence [phrase ["IF".toList, "OBJECT_ID".toList], .blanks, .word ['('], .blanks,
    .optional (.word ['N']), .word ['\''], .run inside, .word table, .wholeRun inside, .word ['\''],
    .blanks, .word [')'], .someBlanks, phrase ["IS".toList, "NULL".toList, "BEGIN".toList],
    .boundary, .through (.sequence [.boundary, .word "END".toList, .blanks, .word [';']])]

/-- `CREATE TABLE [IF NOT EXISTS] table (` -/
def createTable (table : Text) : Pattern :=
  .sequence [phrase ["CREATE".toList, "TABLE".toList], .someBlanks,
    .optional (.sequence [phrase ["IF".toList, "NOT".toList, "EXISTS".toList], .someBlanks]),
    qualified table, .blanks, .word ['(']]

/-- `INSERT INTO table` or `DELETE FROM table` -/
def historyRows (table : Text) : Pattern :=
  .sequence [.choice [phrase ["INSERT".toList, "INTO".toList],
    phrase ["DELETE".toList, "FROM".toList]], .someBlanks, qualified table]

/-- The lines that are left without those that control transactions. -/
def removeTransactionLines : List Text → Text
  | [] => []
  | [last] => if (transactionControl? last).isSome then [] else last
  | line :: next :: rest =>
      (if (transactionControl? line).isSome then [] else line ++ ['\n']) ++
        removeTransactionLines (next :: rest)

/-- Whether a line ends a batch. -/
def isSeparator (line : Text) : Bool := Text.sameIgnoringCase (Text.trim line) "GO".toList

/-- The lines without separators of batches that hold nothing; `filled` says whether the
batch so far holds something. -/
def dropEmptyFrom : Bool → List Text → List Text
  | _, [] => []
  | filled, line :: rest =>
      if isSeparator line then
        (if filled then [line] else []) ++ dropEmptyFrom false rest
      else
        line :: dropEmptyFrom (filled || !Text.isBlankText line) rest

def dropEmptyBatches (s : Text) : Text := Text.joinLines (dropEmptyFrom false (Text.pieces s))

/-- How many blank lines a text starts with and how many characters they have; `pending`
characters of the current line are blank. -/
def blankLines : Nat → Text → Nat × Nat
  | _, [] => (0, 0)
  | pending, c :: rest =>
      if c = '\n' then
        let (lines, characters) := blankLines 0 rest
        (lines + 1, pending + 1 + characters)
      else if Text.isIndent c then blankLines (pending + 1) rest
      else (0, 0)

/-- Leaves two blank lines of every run of more; `skip` characters belong to such a run. -/
def collapseFrom : Nat → Text → Text
  | _, [] => []
  | skip + 1, _ :: rest => collapseFrom skip rest
  | 0, c :: rest =>
      let (lines, characters) := blankLines 0 rest
      if c = '\n' && 3 ≤ lines then ['\n', '\n', '\n'] ++ collapseFrom characters rest
      else c :: collapseFrom 0 rest

/-- The statements of a script that are its own, for the given history table. -/
def sanitize (table : Text) (raw : Text) : Text :=
  let s := Text.replaceAll ['\r', '\n'] ['\n'] raw
  let s := removePreambles s
  let s := cut s (occurrences (guardedCreate table) s)
  let s := cut s (statements (createTable table) s)
  let s := cut s (statements (historyRows table) s)
  let s := removeTransactionLines (Text.pieces s)
  Text.trim (collapseFrom 0 (dropEmptyBatches s))

/-- The body of a procedure that runs `sql` as one verbatim string, empty where there is
nothing to run. -/
def toBody (sql : Text) : Text :=
  if Text.isBlankText sql then []
  else "migrationBuilder.Sql(@\"".toList ++ Text.replaceAll ['"'] ['"', '"'] sql ++
    "\");".toList

end MigrationSquash.Script
