import MigrationSquash.Proofs.Script.TableNames
import MigrationSquash.Proofs.Script.Inert

/-!
# Statements on tables

A migration adds rows to tables, deletes some and creates tables, perhaps only where there are none.
Main statement: no search reads anything at the start of a statement on another table than the
history table, unless the statement names its table so that it is mistaken for that one; and where
it is mistaken, the search reads it.
-/

set_option autoImplicit false

namespace MigrationSquash.Script

open Pattern
open Text (AllBlank SameFolded foldCase isBlank isWord)

/-- What is done with the rows of a table. -/
inductive RowChange where
  | insertion
  | deletion
  deriving DecidableEq, Repr

namespace RowChange

def first : RowChange → Text
  | insertion => "INSERT".toList
  | deletion => "DELETE".toList

def second : RowChange → Text
  | insertion => "INTO".toList
  | deletion => "FROM".toList

end RowChange

/-- A statement that adds rows to a table or deletes some. -/
structure Rows where
  change : RowChange
  name : TableName
  tail : Text
  follows : TableName.Follows tail
  ends : tail.getLast? = some ';'

def Rows.text (rows : Rows) : Text :=
  rows.change.first ++ ' ' :: (rows.change.second ++ ' ' :: (rows.name.text ++ rows.tail))

/-- The creation of a table, perhaps under the condition that there is none; `columns` is what
stands behind the opening parenthesis. -/
structure Creation where
  conditional : Bool
  name : TableName
  gap : Text
  columns : Text
  blank : AllBlank gap
  ends : columns.getLast? = some ';'

namespace Creation

variable (creation : Creation)

/-- The condition under which a table is created. -/
def condition : Text := if creation.conditional then "IF NOT EXISTS ".toList else []

def text : Text :=
  "CREATE".toList ++ ' ' :: ("TABLE".toList ++ ' ' :: (creation.condition ++
    (creation.name.text ++ (creation.gap ++ '(' :: creation.columns))))

end Creation

/-- The creation of a table in a block that runs if there is no object of the name. -/
structure Guard where
  creation : Creation
  before : Text
  inside : Text
  behind : Text
  beforeBlank : AllBlank before
  insideBlank : AllBlank inside
  behindBlank : AllBlank behind
  beforeNonempty : before ≠ []
  insideNonempty : inside ≠ []

namespace Guard

variable (guard : Guard)

/-- The creation and the end of its block. -/
def block : Text := guard.creation.text ++ (guard.behind ++ "END;".toList)

def text : Text :=
  "IF".toList ++ ' ' :: ("OBJECT_ID".toList ++ ("(N'".toList ++
    (escape '\'' guard.creation.name.text ++ '\'' :: (") IS NULL".toList ++ (guard.before ++
      ("BEGIN".toList ++ (guard.inside ++ guard.block)))))))

end Guard

/-- A statement on a table in the forms in which scripts hold them. -/
inductive Emitted where
  | rows (rows : Rows)
  | creation (creation : Creation)
  | guard (guard : Guard)

namespace Emitted

/-- The table that a statement is about. -/
def name : Emitted → TableName
  | .rows changed => changed.name
  | .creation created => created.name
  | .guard guarded => guarded.creation.name

def text : Emitted → Text
  | .rows changed => changed.text
  | .creation created => created.text
  | .guard guarded => guarded.text

/-- The texts at whose start a search may look: the statement, and what the block of a guard
holds. -/
def heads : Emitted → List Text
  | .rows changed => [changed.text]
  | .creation created => [created.text]
  | .guard guarded => [guarded.text, guarded.block]

/-- A statement that is taken for one on the history table: rows of a table with a mistakable name,
and a guard that names the history table anywhere in a name without apostrophes. -/
def Mistaken (table : Text) : Emitted → Prop
  | .rows changed => changed.name.Mistakable table
  | .creation _ => False
  | .guard guarded =>
      '\'' ∉ guarded.creation.name.text ∧ ¬ Lacks (word table) guarded.creation.name.text

instance (table : Text) (statement : Emitted) : Decidable (statement.Mistaken table) := by
  cases statement <;> unfold Mistaken <;> infer_instance

end Emitted

section Yields

variable {pattern : Pattern} {patterns : List Pattern} {read rest : Text} {left : Option Char}

/-- Where a pattern reads in one way only, the next ones go on behind it. -/
theorem sequence_of_eq_singleton {cursor stop : Cursor} (found : pattern cursor = [stop]) :
    sequence (pattern :: patterns) cursor = sequence patterns stop := by
  simp only [Pattern.sequence, found, List.flatMap_cons, List.flatMap_nil, List.append_nil]

theorem sequence_singleton (pattern : Pattern) (cursor : Cursor) :
    sequence [pattern] cursor = pattern cursor := List.flatMap_singleton' (pattern cursor)

theorem Yields.sequence_cons (yields : Yields pattern read rest) :
    sequence (pattern :: patterns) ⟨left, read ++ rest⟩ =
      sequence patterns ⟨read.getLast?.or left, rest⟩ := sequence_of_eq_singleton (yields left)

theorem sequence_someBlanks (shows : Shows rest) :
    sequence (someBlanks :: patterns) ⟨left, ' ' :: rest⟩ = sequence patterns ⟨some ' ', rest⟩ :=
  (yields_someBlanks shows).sequence_cons

theorem sequence_blanks (shows : Shows rest) :
    sequence (blanks :: patterns) ⟨left, rest⟩ = sequence patterns ⟨left, rest⟩ :=
  (yields_blanks shows).sequence_cons

theorem sequence_character (c : Char) (rest : Text) :
    sequence (word [c] :: patterns) ⟨left, c :: rest⟩ = sequence patterns ⟨some c, rest⟩ :=
  (yields_word [c] rest).sequence_cons

theorem sequence_optional {c d : Char} (differ : foldCase d ≠ foldCase c) (rest : Text) :
    sequence (optional (word [c]) :: word [d] :: patterns) ⟨left, c :: d :: rest⟩ =
      sequence patterns ⟨some d, rest⟩ := by
  have reads : word [c] ⟨left, c :: d :: rest⟩ = [⟨some c, d :: rest⟩] := yields_word [c] _ left
  have skips : sequence (word [d] :: patterns) ⟨left, c :: d :: rest⟩ = [] :=
    sequence_of_eq_nil (word_cons_of_ne differ [] left (d :: rest))
  have both : optional (word [c]) ⟨left, c :: d :: rest⟩ =
      [⟨some c, d :: rest⟩, ⟨left, c :: d :: rest⟩] := by
    simp only [Pattern.optional, Pattern.choice, Pattern.sequence, List.flatMap_cons,
      List.flatMap_nil, reads, List.append_nil, List.singleton_append]
  change (Pattern.optional (word [c]) _).flatMap (sequence (word [d] :: patterns)) = _
  rw [both, List.flatMap_cons, List.flatMap_cons, List.flatMap_nil, skips, sequence_character,
    List.append_nil, List.append_nil]

theorem phrase_pair (first second rest : Text) (shows : Shows (second ++ rest)) :
    phrase [first, second] ⟨left, first ++ ' ' :: (second ++ rest)⟩ =
      [⟨second.getLast?.or (some ' '), rest⟩] := by
  change sequence [word first, someBlanks, word second] _ = _
  rw [(yields_word first _).sequence_cons, sequence_someBlanks shows, sequence_singleton,
    yields_word second rest]

/-- Texts that differ in a character at the same place, not only in its case. -/
def Clash (v w : Text) : Prop := ∃ pair ∈ v.zip w, foldCase pair.1 ≠ foldCase pair.2

instance (v w : Text) : Decidable (Clash v w) :=
  inferInstanceAs (Decidable (∃ pair ∈ v.zip w, foldCase pair.1 ≠ foldCase pair.2))

theorem Clash.afterFolded?_eq_none {v w : Text} (clash : Clash v w) (rest : Text) :
    Text.afterFolded? v (w ++ rest) = none := by
  induction v generalizing w with
  | nil => simp [Clash] at clash
  | cons c v ih =>
      cases w with
      | nil => simp [Clash] at clash
      | cons d w =>
          rw [List.cons_append, Text.afterFolded?]
          split
          · rename_i same
            apply ih
            simpa [Clash, same] using clash
          · rfl

theorem Clash.phrase_eq_nil {v w : Text} (clash : Clash v w) (words : List Text) (rest : Text) :
    phrase (v :: words) ⟨left, w ++ rest⟩ = [] := by
  have first : word v ⟨left, w ++ rest⟩ = [] := by
    simp [word, clash.afterFolded?_eq_none rest]
  cases words with
  | nil => exact first
  | cons next others => exact sequence_of_eq_nil first

/-- Of two patterns the second is read where the first clashes. -/
theorem Clash.choice_right {v w : Text} (clash : Clash v w) (words : List Text) (other : Pattern)
    (rest : Text) :
    choice [phrase (v :: words), other] ⟨left, w ++ rest⟩ = other ⟨left, w ++ rest⟩ := by
  rw [Pattern.choice, List.flatMap_cons, List.flatMap_cons, List.flatMap_nil, clash.phrase_eq_nil,
    List.nil_append, List.append_nil]

/-- Of two patterns the first is read where the second clashes. -/
theorem Clash.choice_left {v w : Text} (clash : Clash v w) (words : List Text) (other : Pattern)
    (rest : Text) :
    choice [other, phrase (v :: words)] ⟨left, w ++ rest⟩ = other ⟨left, w ++ rest⟩ := by
  rw [Pattern.choice, List.flatMap_cons, List.flatMap_cons, List.flatMap_nil, clash.phrase_eq_nil,
    List.append_nil, List.append_nil]

end Yields

section Rows

variable {table : Text} {left : Option Char}

/-- A word other than those of row changes starts none. -/
theorem historyRows_eq_nil {w : Text} (noInsertion : Clash "INSERT".toList w)
    (noDeletion : Clash "DELETE".toList w) (rest : Text) :
    historyRows table ⟨left, w ++ rest⟩ = [] := by
  apply sequence_of_eq_nil
  rw [noInsertion.choice_right, noDeletion.phrase_eq_nil]

/-- Behind the words of a row change the search reads the name of a table. -/
theorem historyRows_change (change : RowChange) {rest : Text} (shows : Shows rest) :
    historyRows table ⟨left, change.first ++ ' ' :: (change.second ++ ' ' :: rest)⟩ =
      qualified table ⟨some ' ', rest⟩ := by
  have verb :
      choice [phrase ["INSERT".toList, "INTO".toList], phrase ["DELETE".toList, "FROM".toList]]
      ⟨left, change.first ++ ' ' :: (change.second ++ ' ' :: rest)⟩ =
      [⟨change.second.getLast?.or (some ' '), ' ' :: rest⟩] := by
    cases change with
    | insertion =>
        have other : Clash "DELETE".toList "INSERT".toList := by decide
        exact (other.choice_left _ _ _).trans
          (phrase_pair "INSERT".toList "INTO".toList (' ' :: rest) rfl)
    | deletion =>
        have other : Clash "INSERT".toList "DELETE".toList := by decide
        exact (other.choice_right _ _ _).trans
          (phrase_pair "DELETE".toList "FROM".toList (' ' :: rest) rfl)
  rw [historyRows, sequence_of_eq_singleton verb, sequence_someBlanks shows, sequence_singleton]

end Rows

section Reading

variable {table rest read more after : Text} {left : Option Char} {stop : Cursor} {part : Part}
  {name : TableName}

theorem TableName.Follows.append (follows : TableName.Follows rest) (more : Text) :
    TableName.Follows (rest ++ more) := by
  refine ⟨?_, follows.undot.append more⟩
  obtain ⟨gap, c, others, rfl, -⟩ := follows.undot
  have apart := follows.apart
  cases gap <;> simpa [Apart] using apart

theorem TableName.shows_text (name : TableName) (rest : Text) : Shows (name.text ++ rest) := by
  unfold text
  split
  · obtain ⟨c, more, split, visible⟩ := name.table.exists_text_cons
    simp [Shows, split, visible]
  · rename_i schema _
    obtain ⟨c, more, split, visible⟩ := schema.exists_text_cons
    simp [Shows, split, visible]

/-- A statement on rows is read exactly if the name of its table is mistakable. -/
theorem Rows.historyRows_ne_nil_iff (identifier : Identifier table) (changed : Rows) :
    historyRows table ⟨left, changed.text ++ after⟩ ≠ [] ↔ changed.name.Mistakable table := by
  have follows := changed.follows.append after
  have start : changed.text ++ after = changed.change.first ++ ' ' ::
      (changed.change.second ++ ' ' :: (changed.name.text ++ (changed.tail ++ after))) := by
    unfold Rows.text
    simp only [List.append_assoc, List.cons_append]
  rw [start, historyRows_change changed.change (changed.name.shows_text _)]
  constructor
  · intro found
    obtain ⟨stop, found⟩ := List.exists_mem_of_ne_nil _ found
    exact (TableName.of_mem_qualified identifier follows rfl found).1
  · intro mistakable
    obtain ⟨stop, found⟩ :
        ∃ stop, stop ∈ qualified table ⟨some ' ', changed.name.text ++ (changed.tail ++ after)⟩ :=
      TableName.exists_mem_qualified identifier follows (by decide) mistakable
    exact List.ne_nil_of_mem found

/-- Where the opening parenthesis stands behind a name that the search reads, the name is the one of
the history table. -/
theorem TableName.of_mem_opened (identifier : Identifier table) (follows : TableName.Follows rest)
    (leftApart : left.any isWord = false)
    (found : stop ∈ sequence [qualified table, blanks, word ['(']] ⟨left, name.text ++ rest⟩) :
    SameFolded name.table.name table ∧ ∃ gap more, rest = gap ++ '(' :: more ∧ AllBlank gap := by
  simp only [mem_sequence_cons_iff, mem_sequence_nil_iff] at found
  obtain ⟨one, named, two, gap, three, opening, rfl⟩ := found
  obtain ⟨blanks, blanksRead, blank⟩ := mem_run_iff.1 gap
  obtain ⟨parenthesis, opens, same⟩ := mem_word_iff.1 opening
  rw [sameFolded_singleton (by decide) same] at opens
  have split : one.rest = blanks ++ '(' :: stop.rest := by
    rw [blanksRead.1, opens.1]
    rfl
  obtain ⟨-, ⟨same, behind⟩ | ⟨c, more, behind, other⟩⟩ :=
    TableName.of_mem_qualified identifier follows leftApart named
  · exact ⟨same, blanks, stop.rest, behind ▸ split, blank⟩
  · exfalso
    have visible : isBlank c = false := by
      rcases other with rfl | rfl | rfl <;> decide
    rw [behind] at split
    obtain ⟨-, rfl, -⟩ := cut_unique (s := []) nofun visible blank (by decide) split
    simp [IsClose] at other

/-- Where a text starts with a part of a name and also with a word, the part is this word. -/
theorem Part.of_text_eq (apart : Apart rest) (nonempty : read ≠ [])
    (words : ∀ c ∈ read, isWord c = true) (behind : Apart more)
    (same : part.text ++ rest = read ++ more) : more = rest := by
  by_cases bare : part.quoting = .bare
  · rw [text_of_bare bare] at same
    exact (word_unique (part.word bare) apart words behind same).2.symm
  · obtain ⟨first, last, marks⟩ := part.exists_marks bare
    obtain ⟨c, others, rfl⟩ := List.exists_cons_of_ne_nil nonempty
    have starts : first = c := by
      simp only [text, marks] at same
      exact (List.cons.inj same).1
    have word := words c (by simp)
    rw [← starts] at word
    rcases part.marks_cases with isBare | marked | marked
    · exact absurd isBare bare
    · rw [marked] at marks
      cases marks
      cases word
    · rw [marked] at marks
      cases marks
      cases word

theorem TableName.follows_columns {gap : Text} (blank : AllBlank gap) (columns : Text) :
    TableName.Follows (gap ++ '(' :: columns) := by
  refine ⟨?_, gap, '(', columns, rfl, blank, by decide, by decide⟩
  cases gap with
  | nil => simp [Apart]; decide
  | cons c more => simpa [Apart] using Text.isWord_of_isBlank (blank c (by simp))

/-- The condition of a creation is not read in the name of a table before its columns. -/
theorem TableName.condition_eq_nil {gap columns : Text} (blank : AllBlank gap) :
    sequence [phrase ["IF".toList, "NOT".toList, "EXISTS".toList], someBlanks]
      ⟨left, name.text ++ (gap ++ '(' :: columns)⟩ = [] := by
  rw [List.eq_nil_iff_forall_not_mem]
  intro stop found
  simp only [phrase, mem_sequence_cons_iff] at found
  obtain ⟨_, ⟨one, first, two, gapped, three, ⟨four, second, -⟩, -⟩, -⟩ := found
  obtain ⟨read, reads, same⟩ := mem_word_iff.1 first
  obtain ⟨blanks, blanksRead, nonempty, blanksBlank⟩ := mem_someRun_iff.1 gapped
  obtain ⟨next, nextReads, sameNext⟩ := mem_word_iff.1 second
  obtain ⟨d, others, rfl⟩ := List.exists_cons_of_ne_nil nonempty
  obtain ⟨e, letters, rfl, folded, -⟩ := Text.sameFolded_cons_iff.1 sameNext
  have firstBlank := blanksBlank d (by simp)
  have behind : one.rest = d :: others ++ e :: (letters ++ four.rest) := by
    rw [blanksRead.1, nextReads.1]
    rfl
  have apart : Apart one.rest := by
    simp only [behind, Apart, List.cons_append, List.head?_cons, Option.mem_some]
    rintro _ rfl
    exact Text.isWord_of_isBlank firstBlank
  have words := isWord_of_sameFolded same (List.all_iff_forall_prop.1 (by decide))
  have shown : read ≠ [] := by
    rintro rfl
    cases same
  cases schema : name.schema with
  | none =>
      have whole := reads.1
      rw [text_of_none schema] at whole
      have split := Part.of_text_eq (follows_columns blank columns).apart shown words apart whole
      rw [behind] at split
      have visible : isBlank e = false := by
        rw [Text.isBlank_eq_of_foldCase_eq folded]
        decide
      obtain ⟨-, rfl, -⟩ := cut_unique blanksBlank visible blank (by decide) split
      exact absurd folded (by decide)
  | some first =>
      have whole := reads.1
      rw [text_of_some schema] at whole
      have split := Part.of_text_eq (apart_dot _) shown words apart whole
      rw [behind] at split
      rw [(List.cons.inj split).1] at firstBlank
      cases firstBlank

/-- What is read behind the words of a creation. -/
def createdTable (table : Text) : Pattern :=
  sequence [optional (sequence [phrase ["IF".toList, "NOT".toList, "EXISTS".toList], someBlanks]),
    qualified table, blanks, word ['(']]

theorem createTable_words {rest : Text} (shows : Shows rest) :
    createTable table ⟨left, "CREATE".toList ++ ' ' :: ("TABLE".toList ++ ' ' :: rest)⟩ =
      createdTable table ⟨some ' ', rest⟩ := by
  have words : phrase ["CREATE".toList, "TABLE".toList]
      ⟨left, "CREATE".toList ++ ' ' :: ("TABLE".toList ++ ' ' :: rest)⟩ = [⟨some 'E', ' ' :: rest⟩] :=
    phrase_pair "CREATE".toList "TABLE".toList (' ' :: rest) rfl
  rw [createTable, sequence_of_eq_singleton words, sequence_someBlanks shows, createdTable]

theorem condition_words {rest : Text} (shows : Shows rest) :
    sequence [phrase ["IF".toList, "NOT".toList, "EXISTS".toList], someBlanks]
      ⟨left, "IF NOT EXISTS ".toList ++ rest⟩ = [⟨some ' ', rest⟩] := by
  have later : phrase ["NOT".toList, "EXISTS".toList] ⟨some ' ', "NOT EXISTS ".toList ++ rest⟩ =
      [⟨some 'S', ' ' :: rest⟩] :=
    phrase_pair "NOT".toList "EXISTS".toList (' ' :: rest) rfl
  have words : phrase ["IF".toList, "NOT".toList, "EXISTS".toList]
      ⟨left, "IF NOT EXISTS ".toList ++ rest⟩ = [⟨some 'S', ' ' :: rest⟩] := by
    change sequence [word "IF".toList, someBlanks, phrase ["NOT".toList, "EXISTS".toList]]
      ⟨left, "IF".toList ++ ' ' :: ("NOT EXISTS ".toList ++ rest)⟩ = _
    have starts : Shows ("NOT EXISTS ".toList ++ rest) := rfl
    rw [(yields_word _ _).sequence_cons, sequence_someBlanks starts, sequence_singleton, later]
  rw [sequence_of_eq_singleton words, sequence_singleton]
  exact yields_someBlanks shows (some 'S')

/-- Taken for a table of the name `IF`, the first word of the condition has no parenthesis behind
it. -/
theorem not_mem_opened_condition (identifier : Identifier table) (leftApart : left.any isWord = false)
    (rest : Text) :
    stop ∉ sequence [qualified table, blanks, word ['(']] ⟨left, "IF NOT EXISTS ".toList ++ rest⟩ := by
  intro opened
  let taken : TableName :=
    ⟨none, ⟨.bare, "IF".toList, by decide, fun _ => List.all_iff_forall_prop.1 (by decide)⟩⟩
  have follows : TableName.Follows (" NOT EXISTS ".toList ++ rest) := by
    refine ⟨?_, [' '], 'N', _, rfl, Text.allBlank_singleton (by decide), by decide, by decide⟩
    simp [Apart]
    decide
  change stop ∈ sequence _ ⟨left, taken.text ++ (" NOT EXISTS ".toList ++ rest)⟩ at opened
  obtain ⟨-, gap, more, split, blank⟩ :=
    TableName.of_mem_opened identifier follows leftApart opened
  obtain ⟨-, impossible, -⟩ :=
    cut_unique (c := 'N') (Text.allBlank_singleton (by decide)) (by decide) blank (by decide) split
  cases impossible

/-- Nothing is read at the start of the creation of another table. -/
theorem Creation.createTable_eq_nil (identifier : Identifier table) (creation : Creation)
    (differs : ¬ SameFolded creation.name.table.name table) :
    createTable table ⟨left, creation.text ++ after⟩ = [] := by
  -- The search reads the name of the history table either behind the condition or in its place.
  have named {stop : Cursor} (found : stop ∈ sequence [qualified table, blanks, word ['(']]
      ⟨some ' ', creation.name.text ++ (creation.gap ++ '(' :: (creation.columns ++ after))⟩) :
      False := by
    have follows := TableName.follows_columns creation.blank (creation.columns ++ after)
    exact differs (TableName.of_mem_opened identifier follows (by decide) found).1
  have start : creation.text ++ after = "CREATE".toList ++ ' ' :: ("TABLE".toList ++ ' ' ::
      (creation.condition ++ (creation.name.text ++
        (creation.gap ++ '(' :: (creation.columns ++ after))))) := by
    unfold Creation.text
    simp only [List.append_assoc, List.cons_append]
  have shows := creation.name.shows_text (creation.gap ++ '(' :: (creation.columns ++ after))
  have conditionShows : Shows (creation.condition ++ (creation.name.text ++
      (creation.gap ++ '(' :: (creation.columns ++ after)))) := by
    unfold condition
    split
    · rfl
    · exact shows
  rw [start, createTable_words conditionShows, List.eq_nil_iff_forall_not_mem]
  intro stop found
  obtain ⟨middle, conditioned, opened⟩ := mem_sequence_cons_iff.1 found
  unfold condition at conditioned
  split at conditioned
  · rcases mem_optional_iff.1 conditioned with read | rfl
    · rw [condition_words shows, List.mem_singleton] at read
      subst read
      exact named opened
    · exact not_mem_opened_condition identifier (by decide) _ opened
  · rw [List.nil_append] at conditioned
    rcases mem_optional_iff.1 conditioned with read | rfl
    · rw [TableName.condition_eq_nil creation.blank] at read
      cases read
    · exact named opened

end Reading

section Guards

variable {table name read rest after : Text} {left : Option Char} {stop : Cursor}
  {pattern : Pattern} {patterns : List Pattern}

/-- Characters inside a literal. -/
def unquoted (c : Char) : Bool := c != '\''

/-- What is read of the literal of a guard and behind it. -/
def literalBehind (table : Text) (patterns : List Pattern) : List Pattern :=
  run unquoted :: word table :: wholeRun unquoted :: word ['\''] :: patterns

/-- What ends the block of a guard. -/
def guardEnd : Pattern := sequence [boundary, word "END".toList, blanks, word [';']]

/-- What is read behind the literal of a guard. -/
def behindLiteral : List Pattern :=
  [blanks, word [')'], someBlanks, phrase ["IS".toList, "NULL".toList, "BEGIN".toList], boundary,
    through guardEnd]

theorem guardedCreate_words (rest : Text) :
    guardedCreate table
        ⟨left, "IF".toList ++ ' ' :: ("OBJECT_ID".toList ++ ("(N'".toList ++ rest))⟩ =
      sequence (literalBehind table behindLiteral) ⟨some '\'', rest⟩ := by
  have words : phrase ["IF".toList, "OBJECT_ID".toList]
      ⟨left, "IF".toList ++ ' ' :: ("OBJECT_ID".toList ++ ("(N'".toList ++ rest))⟩ =
      [⟨some 'D', "(N'".toList ++ rest⟩] := phrase_pair "IF".toList "OBJECT_ID".toList _ rfl
  have paren : Shows ("(N'".toList ++ rest) := rfl
  have national : Shows ('N' :: '\'' :: rest) := rfl
  rw [guardedCreate, sequence_of_eq_singleton words, sequence_blanks paren]
  change sequence _ ⟨_, '(' :: 'N' :: '\'' :: rest⟩ = _
  rw [sequence_character, sequence_blanks national, sequence_optional (by decide)]
  rfl

/-- Where a name is read in the literal of a guard, the literal ends at its first apostrophe. -/
theorem of_mem_literalBehind (identifier : Identifier table)
    (found : stop ∈ sequence (literalBehind table behindLiteral)
      ⟨left, escape '\'' name ++ '\'' :: rest⟩) : '\'' ∉ name ∧ ¬ Lacks (word table) name := by
  simp only [literalBehind, behindLiteral, mem_sequence_cons_iff] at found
  obtain ⟨one, first, two, named, three, last, four, closing, five, gap, six, paren, -⟩ := found
  obtain ⟨front, frontReads, frontInside⟩ := mem_run_iff.1 first
  obtain ⟨read, reads, same⟩ := mem_word_iff.1 named
  obtain ⟨back, backReads, backInside⟩ := reads_of_mem_wholeRun last
  obtain ⟨quote, quoteReads, sameQuote⟩ := mem_word_iff.1 closing
  obtain ⟨blanks, blanksReads, blank⟩ := mem_run_iff.1 gap
  obtain ⟨parenthesis, parenReads, sameParen⟩ := mem_word_iff.1 paren
  rw [sameFolded_singleton (by decide) sameQuote] at quoteReads
  rw [sameFolded_singleton (by decide) sameParen] at parenReads
  have whole : escape '\'' name ++ '\'' :: rest =
      front ++ (read ++ back) ++ '\'' :: (blanks ++ ')' :: six.rest) := by
    refine frontReads.1.trans ?_
    rw [reads.1, backReads.1, quoteReads.1, blanksReads.1, parenReads.1]
    simp
  have absent : '\'' ∉ front ++ (read ++ back) := by
    intro member
    simp only [List.mem_append] at member
    rcases member with inFront | inRead | inBack
    · exact absurd (frontInside _ inFront) (by decide)
    · exact identifier.closing_not_mem (by decide) same inRead
    · exact absurd (backInside _ inBack) (by decide)
  obtain ⟨after, split, cases⟩ := exists_escape_append '\'' name rest
  have absentShown : '\'' ∉ name.takeWhile (· ≠ '\'') := fun member => by
    simpa using List.mem_takeWhile_imp member
  rw [split] at whole
  obtain ⟨shown, -, behind⟩ := cut_unique (ne_of_not_mem absentShown) (by simp)
    (ne_of_not_mem absent) (by simp) whole
  rcases cases with ⟨plain, same', -⟩ | ⟨-, more, rfl⟩
  · refine ⟨plain, fun lacks => ?_⟩
    rw [same'] at shown
    exact (spells_word table).lacks_iff.1 lacks read same
      ⟨front, back, by rw [shown, List.append_assoc]⟩
  · obtain ⟨-, impossible, -⟩ := cut_unique (s := []) nofun (by decide) blank (by decide) behind
    cases impossible

theorem past_append {inside : Char → Bool} {c : Char} (all : ∀ d ∈ read, inside d = true)
    (stops : inside c = false) (left : Option Char) (rest : Text) :
    Cursor.past inside left (read ++ c :: rest) = ⟨read.getLast?.or left, c :: rest⟩ := by
  induction read generalizing left with
  | nil => simp [Cursor.past, stops]
  | cons d more ih =>
      obtain ⟨first, later⟩ := List.forall_mem_cons.1 all
      rw [List.cons_append, Cursor.past, if_pos first, ih later, Procedure.getLast?_cons_or]

/-- A name without apostrophes that holds the name of the history table is read in a literal. -/
theorem exists_mem_literalBehind (plain : '\'' ∉ name) (holds : ¬ Lacks (word table) name)
    (found : stop ∈ sequence patterns ⟨some '\'', rest⟩) :
    stop ∈ sequence (literalBehind table patterns) ⟨left, escape '\'' name ++ '\'' :: rest⟩ := by
  have unescaped : escape '\'' name = name := by
    obtain ⟨after, split, ⟨-, same, rfl⟩ | ⟨member, -⟩⟩ := exists_escape_append '\'' name []
    · rw [same] at split
      exact List.append_cancel_right split
    · exact absurd member plain
  simp only [(spells_word table).lacks_iff, not_forall, not_not] at holds
  obtain ⟨read, same, front, back, rfl⟩ := holds
  have inside {s : Text} (among : s ⊆ front ++ read ++ back) : ∀ c ∈ s, unquoted c = true := by
    intro c member
    simp only [unquoted, bne_iff_ne, ne_eq]
    rintro rfl
    exact plain (among member)
  have first : ⟨front.getLast?.or left, read ++ (back ++ '\'' :: rest)⟩ ∈
      run unquoted ⟨left, front ++ (read ++ (back ++ '\'' :: rest))⟩ :=
    mem_run_iff.2 ⟨front, Cursor.reads_append _ _ _, inside (by simp)⟩
  have named := mem_word_iff.2
    ⟨read, Cursor.reads_append (front.getLast?.or left) read (back ++ '\'' :: rest), same⟩
  have last (left : Option Char) : ⟨back.getLast?.or left, '\'' :: rest⟩ ∈
      wholeRun unquoted ⟨left, back ++ '\'' :: rest⟩ := by
    rw [wholeRun, past_append (inside (by simp)) (by decide)]
    exact List.mem_singleton_self _
  rw [unescaped, List.append_assoc, List.append_assoc]
  simp only [literalBehind, mem_sequence_cons_iff]
  refine ⟨_, first, _, named, _, last _, ⟨some '\'', rest⟩, ?_, found⟩
  exact mem_word_iff.2 ⟨['\''], ⟨rfl, rfl⟩, rfl⟩

theorem through_cons_of_eq_nil {c : Char} (nothing : pattern ⟨left, c :: rest⟩ = []) :
    through pattern ⟨left, c :: rest⟩ = through pattern ⟨some c, rest⟩ := by
  simp only [through, through.go, nothing]

theorem through_ne_nil (found : pattern ⟨left, rest⟩ ≠ []) : through pattern ⟨left, rest⟩ ≠ [] := by
  obtain ⟨stop, others, split⟩ := List.exists_cons_of_ne_nil found
  cases rest <;> simp [through, through.go, split]

/-- A pattern is found behind a text before which nothing is found. -/
theorem through_append_ne_nil (found : pattern ⟨read.getLast?.or left, rest⟩ ≠ []) :
    through pattern ⟨left, read ++ rest⟩ ≠ [] := by
  induction read generalizing left with
  | nil => exact through_ne_nil found
  | cons c more ih =>
      rw [Procedure.getLast?_cons_or] at found
      by_cases nothing : pattern ⟨left, c :: (more ++ rest)⟩ = []
      · rw [List.cons_append, through_cons_of_eq_nil nothing]
        exact ih found
      · exact through_ne_nil nothing

theorem guardEnd_ne_nil (apart : left.any isWord = false) (rest : Text) :
    guardEnd ⟨left, "END;".toList ++ rest⟩ ≠ [] := by
  have start : boundary ⟨left, "END".toList ++ ';' :: rest⟩ =
      [⟨left, "END".toList ++ ';' :: rest⟩] := by
    rw [boundary, if_pos]
    simp [Text.isWordBoundary, apart]
    decide
  change sequence _ ⟨left, "END".toList ++ ';' :: rest⟩ ≠ []
  have semicolon : Shows (';' :: rest) := rfl
  rw [sequence_of_eq_singleton start, (yields_word _ _).sequence_cons, sequence_blanks semicolon,
    sequence_character]
  exact List.cons_ne_nil _ _

theorem Creation.getLast?_text (creation : Creation) : creation.text.getLast? = some ';' := by
  obtain ⟨front, columns⟩ := List.getLast?_eq_some_iff.1 creation.ends
  unfold Creation.text
  simp [columns, List.getLast?_append, List.getLast?_cons]

theorem mem_isNull {gap : Text} (blank : AllBlank gap) (nonempty : gap ≠ []) (rest : Text) :
    ⟨some 'N', rest⟩ ∈ phrase ["IS".toList, "NULL".toList, "BEGIN".toList]
      ⟨left, "IS".toList ++ ' ' :: ("NULL".toList ++ (gap ++ ("BEGIN".toList ++ rest)))⟩ := by
  have later := (spells_phrase "NULL".toList "BEGIN".toList _ _).2
    ⟨"NULL".toList ++ (gap ++ "BEGIN".toList), Cursor.reads_append (some ' ') _ rest,
      "NULL".toList, gap, "BEGIN".toList, rfl, rfl, ⟨nonempty, blank⟩, rfl⟩
  have final : ("NULL".toList ++ (gap ++ "BEGIN".toList)).getLast? = some 'N' := by
    rw [List.getLast?_append, List.getLast?_append]
    rfl
  have shows : Shows ("NULL".toList ++ (gap ++ ("BEGIN".toList ++ rest))) := rfl
  rw [final, List.append_assoc, List.append_assoc] at later
  change _ ∈ sequence [word "IS".toList, someBlanks, phrase ["NULL".toList, "BEGIN".toList]] _
  rw [(yields_word _ _).sequence_cons, sequence_someBlanks shows, sequence_singleton]
  exact later

/-- The block of a guard is read to its end. -/
theorem Guard.behindLiteral_ne_nil (guarded : Guard) (after : Text) :
    sequence behindLiteral ⟨some '\'', ") IS NULL".toList ++ (guarded.before ++ ("BEGIN".toList ++
      (guarded.inside ++ (guarded.block ++ after))))⟩ ≠ [] := by
  have edge : boundary ⟨some 'N', guarded.inside ++ (guarded.block ++ after)⟩ =
      [⟨some 'N', guarded.inside ++ (guarded.block ++ after)⟩] := by
    obtain ⟨c, more, split⟩ := List.exists_cons_of_ne_nil guarded.insideNonempty
    have blank := Text.isWord_of_isBlank (guarded.insideBlank c (by simp [split]))
    rw [boundary, if_pos]
    simp [split, Text.isWordBoundary, blank]
    decide
  have ends : through guardEnd ⟨some 'N', guarded.inside ++ (guarded.block ++ after)⟩ ≠ [] := by
    have split : guarded.inside ++ (guarded.block ++ after) =
        guarded.inside ++ (guarded.creation.text ++ guarded.behind) ++
          ("END;".toList ++ after) := by
      simp [Guard.block]
    rw [split]
    apply through_append_ne_nil
    apply guardEnd_ne_nil
    rw [List.getLast?_append, List.getLast?_append, guarded.creation.getLast?_text]
    cases last : guarded.behind.getLast? with
    | none => rfl
    | some c => exact Text.isWord_of_isBlank (guarded.behindBlank c (List.mem_of_getLast? last))
  obtain ⟨stop, found⟩ := List.exists_mem_of_ne_nil _ ends
  have close : Shows (") IS NULL".toList ++ (guarded.before ++ ("BEGIN".toList ++
      (guarded.inside ++ (guarded.block ++ after))))) := rfl
  have shows : Shows ("IS".toList ++ ' ' :: ("NULL".toList ++ (guarded.before ++ ("BEGIN".toList ++
      (guarded.inside ++ (guarded.block ++ after)))))) := rfl
  rw [behindLiteral, sequence_blanks close]
  change sequence _ ⟨some '\'', ')' :: ' ' :: ("IS".toList ++ ' ' :: ("NULL".toList ++ _))⟩ ≠ []
  rw [sequence_character, sequence_someBlanks shows]
  apply List.ne_nil_of_mem (a := stop)
  refine mem_sequence_cons_iff.2 ⟨_, mem_isNull guarded.beforeBlank guarded.beforeNonempty _, ?_⟩
  rwa [sequence_of_eq_singleton edge, sequence_singleton]

/-- A guard is read exactly if its literal is the whole name and holds that of the history table. -/
theorem Guard.guardedCreate_ne_nil_iff (identifier : Identifier table) (guarded : Guard) :
    guardedCreate table ⟨left, guarded.text ++ after⟩ ≠ [] ↔
      '\'' ∉ guarded.creation.name.text ∧ ¬ Lacks (word table) guarded.creation.name.text := by
  have start : guarded.text ++ after = "IF".toList ++ ' ' :: ("OBJECT_ID".toList ++ ("(N'".toList ++
      (escape '\'' guarded.creation.name.text ++ '\'' :: (") IS NULL".toList ++ (guarded.before ++
        ("BEGIN".toList ++ (guarded.inside ++ (guarded.block ++ after)))))))) := by
    unfold Guard.text
    simp only [List.append_assoc, List.cons_append]
  rw [start, guardedCreate_words]
  constructor
  · intro found
    obtain ⟨stop, found⟩ := List.exists_mem_of_ne_nil _ found
    exact of_mem_literalBehind identifier found
  · rintro ⟨plain, holds⟩
    obtain ⟨stop, found⟩ := List.exists_mem_of_ne_nil _ (guarded.behindLiteral_ne_nil after)
    exact List.ne_nil_of_mem (exists_mem_literalBehind plain holds found)

end Guards

section Heads

variable {table after : Text} {left : Option Char}

/-- What is looked for of the history table. -/
def searches (table : Text) : List Pattern :=
  [guardedCreate table, createTable table, historyRows table]

theorem Rows.searches_eq_nil (identifier : Identifier table) (changed : Rows)
    (clear : ¬ changed.name.Mistakable table) :
    ∀ pattern ∈ searches table, pattern ⟨left, changed.text ++ after⟩ = [] := by
  have noGuard : Clash "IF".toList changed.change.first := by cases changed.change <;> decide
  have noCreation : Clash "CREATE".toList changed.change.first := by cases changed.change <;> decide
  simp only [searches, List.forall_mem_cons]
  refine ⟨?_, ?_, ?_, nofun⟩
  · unfold Rows.text
    rw [List.append_assoc]
    exact sequence_of_eq_nil (noGuard.phrase_eq_nil _ _)
  · unfold Rows.text
    rw [List.append_assoc]
    exact sequence_of_eq_nil (noCreation.phrase_eq_nil _ _)
  · by_contra found
    exact clear ((changed.historyRows_ne_nil_iff identifier).1 found)

theorem Creation.searches_eq_nil (identifier : Identifier table) (creation : Creation)
    (differs : ¬ SameFolded creation.name.table.name table) :
    ∀ pattern ∈ searches table, pattern ⟨left, creation.text ++ after⟩ = [] := by
  have noGuard : Clash "IF".toList "CREATE".toList := by decide
  simp only [searches, List.forall_mem_cons]
  refine ⟨?_, creation.createTable_eq_nil identifier differs, ?_, nofun⟩
  · unfold Creation.text
    rw [List.append_assoc]
    exact sequence_of_eq_nil (noGuard.phrase_eq_nil _ _)
  · unfold Creation.text
    rw [List.append_assoc]
    exact historyRows_eq_nil (by decide) (by decide) _

theorem Guard.searches_eq_nil (identifier : Identifier table) (guarded : Guard)
    (clear : ¬ ('\'' ∉ guarded.creation.name.text ∧
      ¬ Lacks (word table) guarded.creation.name.text)) :
    ∀ pattern ∈ searches table, pattern ⟨left, guarded.text ++ after⟩ = [] := by
  have noCreation : Clash "CREATE".toList "IF".toList := by decide
  simp only [searches, List.forall_mem_cons]
  refine ⟨?_, ?_, ?_, nofun⟩
  · by_contra found
    exact clear ((guarded.guardedCreate_ne_nil_iff identifier).1 found)
  · unfold Guard.text
    rw [List.append_assoc]
    exact sequence_of_eq_nil (noCreation.phrase_eq_nil _ _)
  · unfold Guard.text
    rw [List.append_assoc]
    exact historyRows_eq_nil (by decide) (by decide) _

namespace Emitted

variable {statement : Emitted}

/-- At the start of a statement on another table, and of what a guard holds, nothing is read unless
the statement is mistaken. -/
theorem searches_eq_nil (identifier : Identifier table)
    (differs : ¬ SameFolded statement.name.table.name table) (clear : ¬ statement.Mistaken table)
    {head : Text} (member : head ∈ statement.heads) :
    ∀ pattern ∈ searches table, pattern ⟨left, head ++ after⟩ = [] := by
  cases statement with
  | rows changed =>
      obtain rfl := List.mem_singleton.1 member
      exact changed.searches_eq_nil identifier clear
  | creation created =>
      obtain rfl := List.mem_singleton.1 member
      exact created.searches_eq_nil identifier differs
  | guard guarded =>
      simp only [heads, List.mem_cons, List.not_mem_nil, or_false] at member
      rcases member with rfl | rfl
      · exact guarded.searches_eq_nil identifier clear
      · rw [Guard.block, List.append_assoc]
        exact guarded.creation.searches_eq_nil identifier differs

/-- A mistaken statement is read from its start. -/
theorem exists_search (identifier : Identifier table) (mistaken : statement.Mistaken table)
    (left : Option Char) (after : Text) :
    ∃ pattern ∈ searches table, pattern ⟨left, statement.text ++ after⟩ ≠ [] := by
  cases statement with
  | rows changed =>
      exact ⟨historyRows table, by simp [searches],
        (changed.historyRows_ne_nil_iff identifier).2 mistaken⟩
  | creation created => exact absurd mistaken id
  | guard guarded =>
      exact ⟨guardedCreate table, by simp [searches],
        (guarded.guardedCreate_ne_nil_iff identifier).2 mistaken⟩

theorem getLast?_text (statement : Emitted) : statement.text.getLast? = some ';' := by
  cases statement with
  | rows changed =>
      obtain ⟨front, tail⟩ := List.getLast?_eq_some_iff.1 changed.ends
      unfold text Rows.text
      simp [tail, List.getLast?_append, List.getLast?_cons]
  | creation created => exact created.getLast?_text
  | guard guarded =>
      unfold text Guard.text Guard.block
      simp [List.getLast?_append, List.getLast?_cons]

theorem trimmed_text (statement : Emitted) : Trimmed statement.text := by
  rw [trimmed_iff, statement.getLast?_text]
  refine ⟨?_, by decide⟩
  cases statement with
  | rows changed =>
      obtain ⟨change, name, tail, follows, ends⟩ := changed
      cases change <;> rfl
  | creation created => rfl
  | guard guarded => rfl

end Emitted

end Heads

end MigrationSquash.Script
