import MigrationSquash.Proofs.Script.Stages

/-!
# Sanitized outlines

Each pass over a script removes the texts of one kind from an outline, and nothing else.  Main
statement: of the texts of an outline the statements of the migrations are left, in their order,
with the blank lines that were between them, but at most two.
-/

set_option autoImplicit false

namespace MigrationSquash.Script

open Pattern
open Text (AllBlank isBlank pieces)

variable {table : Text}

section Order

theorem ordered_preambles (blocks : List Block) {rest : List (Item table)}
    (ordered : Item.Ordered false rest) :
    Item.Ordered false (blocks.map .preamble ++ rest) := by
  induction blocks with
  | nil => exact ordered
  | cons block more ih => exact ih

theorem ordered_statements (statements : List (Statement table)) {rest : List (Item table)}
    (ordered : Item.Ordered true rest) :
    Item.Ordered true (statements.map .own ++ rest) := by
  induction statements with
  | nil => exact ordered
  | cons statement more ih => exact ih

theorem ordered_stages (stages : List (Stage table)) :
    Item.Ordered false (stages.flatMap Stage.items) := by
  induction stages with
  | nil => exact trivial
  | cons stage more ih =>
      rw [List.flatMap_cons, Stage.items, List.append_assoc, List.cons_append, List.append_assoc]
      refine ordered_preambles stage.preambles ?_
      change Item.Ordered true _
      exact ordered_statements stage.statements ih

theorem Outline.ordered (outline : Outline table) : Item.Ordered false outline.items := by
  refine ordered_preambles outline.preambles ?_
  cases outline.creation with
  | none => exact ordered_stages outline.stages
  | some definition => exact ordered_stages outline.stages

end Order

/-- A text that is not a preamble starts no guarded creation of the history table. -/
theorem Item.lacks_opensGuard (identifier : Identifier table) {item : Item table}
    (noPreamble : item.isPreamble = false) : Lacks opensGuard item.text := by
  cases item with
  | preamble block => cases noPreamble
  | creation definition =>
      exact definition.lacks identifier (List.all_iff_forall_prop.1 (by decide +kernel))
        (by decide +kernel) definition.guard
  | start => exact (by decide +kernel : Lacks opensGuard "START TRANSACTION;".toList)
  | own statement => exact lacks_phrase_of_lacks_word statement.unguarded
  | entry record => exact foreign_opensGuard.record identifier record fun value _ => value.guard
  | commit => exact (by decide +kernel : Lacks opensGuard "COMMIT;".toList)

/-- Behind the name of the table a record goes on without a dot. -/
theorem Record.undot (record : Record) : Undot (record.front ++ record.back) := by
  cases record with
  | insertion idColumn versionColumn gap id version =>
      exact ⟨[' '], '(', _, rfl, Text.allBlank_singleton (by decide), by decide, by decide⟩
  | deletion gap id =>
      refine ⟨gap.1, 'W', "HERE \"MigrationId\" = ".toList ++ (Record.deletion gap id).back, ?_,
        gap.2, by decide, by decide⟩
      exact List.append_assoc _ _ _

/-- The name of the history table is not read to its end inside of the later texts. -/
theorem Item.calm (identifier : Identifier table) {item : Item table}
    (noPreamble : item.isPreamble = false) (noCreation : item.isCreation = false) :
    Calm table item.text := by
  refine ⟨item.getLast?_text, ?_⟩
  cases item with
  | preamble block => cases noPreamble
  | creation definition => cases noCreation
  | start => exact Or.inr (undotted_of_no_dot (by decide : '.' ∉ "START TRANSACTION;".toList))
  | own statement => exact Or.inl statement.apart
  | entry record => exact Or.inr (record.undotted identifier)
  | commit => exact Or.inr (undotted_of_no_dot (by decide : '.' ∉ "COMMIT;".toList))

/-- The text of a creation up to the parenthesis that opens it, and the rest. -/
theorem Definition.text_eq (definition : Definition table) :
    definition.text = ("CREATE TABLE IF NOT EXISTS ".toList ++
      ('"' :: (table ++ ['"', ' ', '(']))) ++ (definition.columns ++ [')', ';']) := by
  have named : table ++ ('"' :: ' ' :: '(' :: (definition.columns ++ [')', ';'])) =
      (table ++ ['"', ' ', '(']) ++ (definition.columns ++ [')', ';']) := by
    rw [List.append_assoc]
    rfl
  unfold Definition.text creation
  rw [named]
  generalize table ++ ['"', ' ', '('] = opening
  rw [List.append_assoc]
  rfl

section Own

variable {texts : List (Option Text)}

/-- The creation of the history table starts in no statement of a migration. -/
theorem Statement.free_createTable (identifier : Identifier table) (statement : Statement table)
    (calm : ∀ t, some t ∈ texts → Calm table t) :
    Free (createTable table) statement.text (behind texts) := by
  have blanks : Omits ';' someBlanks := omits_someBlanks (by decide)
  have condition : Omits ';' (sequence [word "IF".toList, someBlanks,
      phrase ["NOT".toList, "EXISTS".toList]]) := by
    refine omits_sequence ?_
    simp only [List.forall_mem_cons]
    exact ⟨omits_word (List.all_iff_forall_prop.1 (by decide)), blanks,
      omits_phrase (by decide), nofun⟩
  have guard : Omits ';' (sequence [phrase ["IF".toList, "NOT".toList, "EXISTS".toList],
      someBlanks]) := by
    refine omits_sequence ?_
    simp only [List.forall_mem_cons]
    exact ⟨condition, blanks, nofun⟩
  have lead : Omits ';' (sequence [phrase ["CREATE".toList, "TABLE".toList], someBlanks,
      optional (sequence [phrase ["IF".toList, "NOT".toList, "EXISTS".toList], someBlanks])]) := by
    refine omits_sequence ?_
    simp only [List.forall_mem_cons]
    exact ⟨omits_phrase (by decide), blanks, omits_optional guard, nofun⟩
  exact free_qualified identifier lead [Pattern.blanks, word ['(']] statement.ends
    statement.apart calm

/-- No statement of a migration starts what is done with the records. -/
theorem Statement.free_historyRows (identifier : Identifier table) (statement : Statement table)
    (calm : ∀ t, some t ∈ texts → Calm table t) :
    Free (historyRows table) statement.text (behind texts) := by
  have verb : Omits ';' (choice [phrase ["INSERT".toList, "INTO".toList],
      phrase ["DELETE".toList, "FROM".toList]]) := by
    refine omits_choice ?_
    simp only [List.forall_mem_cons]
    exact ⟨omits_phrase (by decide), omits_phrase (by decide), nofun⟩
  have lead : Omits ';' (sequence [choice [phrase ["INSERT".toList, "INTO".toList],
      phrase ["DELETE".toList, "FROM".toList]], someBlanks]) := by
    refine omits_sequence ?_
    simp only [List.forall_mem_cons]
    exact ⟨verb, omits_someBlanks (by decide), nofun⟩
  exact free_qualified identifier lead [] statement.ends statement.apart calm

/-- What is done with the records starts in no text without its words. -/
theorem free_historyRows {s : Text} (ends : s.getLast? = some ';')
    (insertion : Lacks (phrase ["INSERT".toList, "INTO".toList]) s)
    (deletion : Lacks (phrase ["DELETE".toList, "FROM".toList]) s) (t : Text) :
    Free (historyRows table) s t := by
  refine Free.sequence (fun left rest nonempty behind => ?_) _
  change phrase _ _ ++ (phrase _ _ ++ []) = []
  rw [free_phrase (by decide) ends insertion t left rest nonempty behind,
    free_phrase (by decide) ends deletion t left rest nonempty behind]
  rfl

end Own

section Passes

variable {rows : List (Option (Item table))}

theorem mem_of_suffix {item : Item table} {after : List (Option (Item table))}
    (suffix : some item :: after <:+ rows) : item ∈ rows.reduceOption :=
  List.reduceOption_mem_iff.2 (suffix.subset List.mem_cons_self)

theorem reduceOption_suffix {item : Item table} {after : List (Option (Item table))}
    (suffix : some item :: after <:+ rows) : item :: after.reduceOption <:+ rows.reduceOption := by
  obtain ⟨before, rfl⟩ := suffix
  exact ⟨before.reduceOption, by rw [List.reduceOption_append, List.reduceOption_cons_of_some]⟩

/-- The texts behind a text of the script, if none of them creates the history table. -/
theorem calm_after (identifier : Identifier table)
    (noPreamble : ∀ item ∈ rows.reduceOption, item.isPreamble = false) {item : Item table}
    {after : List (Option (Item table))} (suffix : some item :: after <:+ rows)
    (noCreation : ∀ next ∈ after.reduceOption, next.isCreation = false) :
    ∀ t, some t ∈ textRows Item.text after → Calm table t := by
  intro t member
  obtain ⟨row, inside, text⟩ := List.mem_map.1 member
  obtain ⟨next, rfl, rfl⟩ := Option.map_eq_some_iff.1 text
  have among := List.reduceOption_mem_iff.2 inside
  exact next.calm identifier (noPreamble next ((reduceOption_suffix suffix).subset
    (List.mem_cons_of_mem _ among))) (noCreation next among)

theorem cut_guardedCreate (identifier : Identifier table)
    (noPreamble : ∀ item ∈ rows.reduceOption, item.isPreamble = false) :
    cut (ofRows (textRows Item.text rows))
        (occurrences (guardedCreate table) (ofRows (textRows Item.text rows))) =
      ofRows (textRows Item.text rows) := by
  have found : occurrences (guardedCreate table) (ofRows (textRows Item.text rows)) =
      rowSpans Item.text (fun _ => false) 0 rows := by
    refine spans_textRows (findsVisible_occurrences (opens_guardedCreate table))
      (fun _ _ _ => nofun) fun item after suffix _ => skips_occurrences ?_
    exact free_guardedCreate item.getLast?_text
      (item.lacks_opensGuard identifier (noPreamble item (mem_of_suffix suffix))) _
  rw [found, cut_rowSpans, dropRows_of_none fun _ _ => rfl]

/-- Behind an own statement of a migration the history table is not created. -/
def CreatedFirst (rows : List (Option (Item table))) : Prop :=
  ∀ statement after, some (.own statement) :: after <:+ rows →
    ∀ item ∈ after.reduceOption, item.isCreation = false

theorem cut_createTable (identifier : Identifier table)
    (noPreamble : ∀ item ∈ rows.reduceOption, item.isPreamble = false) (first : CreatedFirst rows) :
    cut (ofRows (textRows Item.text rows))
        (statements (createTable table) (ofRows (textRows Item.text rows))) =
      ofRows (textRows Item.text (dropRows Item.isCreation rows)) := by
  have found : statements (createTable table) (ofRows (textRows Item.text rows)) =
      rowSpans Item.text Item.isCreation 0 rows := by
    refine spans_textRows (findsVisible_statements (opens_createTable table))
      (fun item after suffix isCreation => ?_)
      fun item after suffix noCreation => skips_statements ?_
    · cases item with
      | creation definition =>
          change Finds _ definition.text _
          have ends := definition.ends identifier
          rw [definition.text_eq] at ends ⊢
          exact finds_statements (prefers_createTable identifier _) ends
            (List.append_ne_nil_of_left_ne_nil (by decide) _)
      | preamble | start | own | entry | commit => cases isCreation
    · cases item with
      | preamble block => cases noPreamble _ (mem_of_suffix suffix)
      | creation definition => cases noCreation
      | start =>
          exact free_createTable rfl
            (by decide +kernel : Lacks opensTable "START TRANSACTION;".toList) _
      | own statement =>
          exact statement.free_createTable identifier (calm_after identifier noPreamble suffix
            (first statement after suffix))
      | entry record =>
          exact free_createTable (Item.entry record).getLast?_text
            (foreign_opensTable.record identifier record fun value _ => value.creation) _
      | commit =>
          exact free_createTable rfl (by decide +kernel : Lacks opensTable "COMMIT;".toList) _
  rw [found, cut_rowSpans]

theorem cut_historyRows (identifier : Identifier table)
    (noPreamble : ∀ item ∈ rows.reduceOption, item.isPreamble = false)
    (noCreation : ∀ item ∈ rows.reduceOption, item.isCreation = false) :
    cut (ofRows (textRows Item.text rows))
        (statements (historyRows table) (ofRows (textRows Item.text rows))) =
      ofRows (textRows Item.text (dropRows Item.isEntry rows)) := by
  have found : statements (historyRows table) (ofRows (textRows Item.text rows)) =
      rowSpans Item.text Item.isEntry 0 rows := by
    refine spans_textRows (findsVisible_statements (opens_historyRows table))
      (fun item after suffix isEntry => ?_) fun item after suffix noEntry => skips_statements ?_
    · cases item with
      | entry record =>
          have split : record.text table = (record.verb.1 ++ ' ' :: record.verb.2 ++
              ([' '] ++ '"' :: (table ++ ['"']))) ++ (record.front ++ record.back) := by
            simp only [Record.text, List.append_assoc, List.cons_append, List.nil_append]
          change Finds _ (record.text table) _
          have ends := record.ends identifier
          rw [split] at ends ⊢
          exact finds_statements (prefers_historyRows identifier record (record.undot.append _))
            ends (by simp)
      | preamble | creation | start | own | commit => cases isEntry
    · cases item with
      | preamble block => cases noPreamble _ (mem_of_suffix suffix)
      | creation definition => cases noCreation _ (mem_of_suffix suffix)
      | start =>
          exact free_historyRows rfl (by decide +kernel : Lacks _ "START TRANSACTION;".toList)
            (by decide +kernel : Lacks _ "START TRANSACTION;".toList) _
      | own statement =>
          refine statement.free_historyRows identifier
            (calm_after identifier noPreamble suffix fun next member => noCreation next ?_)
          exact (reduceOption_suffix suffix).subset (List.mem_cons_of_mem _ member)
      | entry record => cases noEntry
      | commit =>
          exact free_historyRows rfl (by decide +kernel : Lacks _ "COMMIT;".toList)
            (by decide +kernel : Lacks _ "COMMIT;".toList) _
  rw [found, cut_rowSpans]

/-- The lines that are left are those of the statements. -/
theorem removeTransactionLines_rows
    (left : ∀ item ∈ rows.reduceOption, item.isOwn = true ∨ item.isControl = true) :
    removeTransactionLines (pieces (ofRows (textRows Item.text rows))) =
      ofRows (textRows Item.text (dropRows Item.isControl rows)) := by
  refine removeTransactionLines_textRows fun item member => ?_
  cases item with
  | own statement => exact statement.uncontrolled
  | start =>
      exact ⟨_, (by decide : pieces "START TRANSACTION;".toList = ["START TRANSACTION;".toList]),
        by decide⟩
  | commit => exact ⟨_, (by decide : pieces "COMMIT;".toList = ["COMMIT;".toList]), by decide⟩
  | preamble | creation | entry => exact (left _ member).elim nofun nofun

theorem reduceOption_keptRows (removed : Item table → Bool) (rows : List (Option (Item table))) :
    (keptRows removed rows).reduceOption = rows.reduceOption.filter fun item => !removed item := by
  unfold keptRows
  induction rows with
  | nil => rfl
  | cons row rest ih =>
      cases row with
      | none =>
          rw [List.filter_cons, List.reduceOption_cons_of_none]
          exact ih
      | some item =>
          rw [List.filter_cons, List.reduceOption_cons_of_some, List.filter_cons, Option.any_some]
          cases removed item with
          | true => exact ih
          | false =>
              change (some item :: _).reduceOption = _
              rw [List.reduceOption_cons_of_some, ih]
              rfl

theorem mem_dropRows_iff {removed : Item table → Bool} {item : Item table} :
    item ∈ (dropRows removed rows).reduceOption ↔
      item ∈ rows.reduceOption ∧ removed item = false := by
  rw [reduceOption_dropRows, List.mem_filter, Bool.not_eq_true']

end Passes

theorem exists_suffix_of_filter {α : Type} {p : α → Bool} {l rest : List α} {a : α}
    (suffix : a :: rest <:+ l.filter p) : ∃ behind, a :: behind <:+ l ∧ rest = behind.filter p := by
  obtain ⟨before, split⟩ := suffix
  obtain ⟨front, back, rfl, -, later⟩ := List.filter_eq_append_iff.1 split.symm
  obtain ⟨skipped, behind, rfl, -, -, kept⟩ := List.filter_eq_cons_iff.1 later
  exact ⟨behind, ⟨front ++ skipped, List.append_assoc _ _ _⟩, kept.symm⟩

theorem Outline.noCreation_behind_own (outline : Outline table) {statement : Statement table}
    {after : List (Item table)} (suffix : .own statement :: after <:+ outline.items) :
    ∀ item ∈ after, item.isCreation = false := by
  have stages : ∀ item ∈ outline.stages.flatMap Stage.items, item.isCreation = false := by
    intro item member
    obtain ⟨stage, -, inside⟩ := List.mem_flatMap.1 member
    cases item with
    | creation definition => simp [Stage.items] at inside
    | _ => rfl
  have front : .own statement ∉ outline.preambles.map Item.preamble ++
      outline.creation.toList.map Item.creation := by
    simp
  obtain ⟨before, split⟩ := suffix
  rw [Outline.items, ← List.append_assoc] at split
  rcases append_cons_cases split.symm with ⟨more, -, behind⟩ | ⟨more, whole, -⟩
  · intro item member
    refine stages item ?_
    rw [behind]
    exact List.mem_append_right _ (List.mem_cons_of_mem _ member)
  · rw [whole] at front
    exact absurd (List.mem_append_right _ List.mem_cons_self) front

/-- All passes together leave the rows with the statements of the migrations. -/
theorem strip_outline (identifier : Identifier table) (outline : Outline table)
    {rows : List (Option (Item table))} (items : rows.reduceOption = outline.items) :
    strip table (ofRows (textRows Item.text rows)) =
      ofRows (textRows Item.text (dropRows (fun item => !item.isOwn) rows)) := by
  have ordered : Item.Ordered false rows.reduceOption := items ▸ outline.ordered
  have noPreamble : ∀ item ∈ (dropRows Item.isPreamble rows).reduceOption,
      item.isPreamble = false := fun item member => (mem_dropRows_iff.1 member).2
  have first : CreatedFirst (dropRows Item.isPreamble rows) := by
    intro statement after suffix item member
    have split := reduceOption_suffix suffix
    rw [reduceOption_dropRows, items] at split
    obtain ⟨behind, whole, kept⟩ := exists_suffix_of_filter split
    rw [kept] at member
    exact outline.noCreation_behind_own whole item (List.mem_filter.1 member).1
  have noCreation :
      ∀ item ∈ (dropRows Item.isCreation (dropRows Item.isPreamble rows)).reduceOption,
        item.isPreamble = false ∧ item.isCreation = false := by
    intro item member
    obtain ⟨before, noCreation⟩ := mem_dropRows_iff.1 member
    exact ⟨noPreamble item before, noCreation⟩
  have left : ∀ item ∈ (dropRows Item.isEntry
      (dropRows Item.isCreation (dropRows Item.isPreamble rows))).reduceOption,
      item.isOwn = true ∨ item.isControl = true := by
    intro item member
    obtain ⟨before, noEntry⟩ := mem_dropRows_iff.1 member
    obtain ⟨noPreamble, noCreation⟩ := noCreation item before
    cases item with
    | own => exact Or.inl rfl
    | start | commit => exact Or.inr rfl
    | preamble => cases noPreamble
    | creation => cases noCreation
    | entry => cases noEntry
  have whole : dropRows Item.isControl (dropRows Item.isEntry
      (dropRows Item.isCreation (dropRows Item.isPreamble rows))) =
        dropRows (fun item => !item.isOwn) rows := by
    rw [dropRows_dropRows, dropRows_dropRows, dropRows_dropRows]
    congr 1
    funext item
    cases item <;> rfl
  rw [strip, removePreambles_rows identifier ordered, cut_guardedCreate identifier noPreamble,
    cut_createTable identifier noPreamble first,
    cut_historyRows identifier (fun item member => (noCreation item member).1)
      (fun item member => (noCreation item member).2),
    removeTransactionLines_rows left, whole]
  refine dropEmptyBatches_textRows fun item member => ?_
  have isOwn := (mem_dropRows_iff.1 member).2
  cases item with
  | own statement => exact statement.unseparated
  | preamble | creation | start | entry | commit => cases isOwn

/-- The statements of the migrations, in their order. -/
def Outline.statements (outline : Outline table) : List (Statement table) :=
  outline.stages.flatMap fun stage => stage.statements

theorem Outline.filter_isOwn (outline : Outline table) :
    outline.items.filter (fun item => !!item.isOwn) = outline.statements.map .own := by
  have none (l : List (Item table)) (other : ∀ item ∈ l, item.isOwn = false) :
      l.filter (fun item => !!item.isOwn) = [] := by
    rw [List.filter_eq_nil_iff]
    intro item member
    rw [other item member]
    decide
  have stage (stage : Stage table) :
      stage.items.filter (fun item => !!item.isOwn) = stage.statements.map .own := by
    have own : (stage.statements.map Item.own).filter (fun item => !!item.isOwn) =
        stage.statements.map .own := by
      refine List.filter_eq_self.2 fun item member => ?_
      obtain ⟨statement, -, rfl⟩ := List.mem_map.1 member
      rfl
    have preambles := none (stage.preambles.map .preamble) (by simp [Item.isOwn])
    rw [Stage.items, List.filter_append, preambles, List.nil_append, List.filter_cons]
    change (stage.statements.map Item.own ++ [Item.entry stage.record, Item.commit]).filter _ = _
    rw [List.filter_append, own]
    exact List.append_nil _
  have stages (stages : List (Stage table)) :
      (stages.flatMap Stage.items).filter (fun item => !!item.isOwn) =
        (stages.flatMap fun stage => stage.statements).map .own := by
    induction stages with
    | nil => rfl
    | cons first rest ih =>
        rw [List.flatMap_cons, List.filter_append, stage, ih, List.flatMap_cons, List.map_append]
  have preambles := none (outline.preambles.map .preamble) (by simp [Item.isOwn])
  have creation := none (outline.creation.toList.map .creation) (by simp [Item.isOwn])
  rw [Outline.items, List.filter_append, List.filter_append, preambles, creation]
  exact stages outline.stages

/-- Of a script the statements of the migrations are left, in their order and without the runs of
more than two blank lines in them.  Between two of them the blank lines are left that stood
anywhere between them, but at most two, and around them none. -/
theorem sanitize_outline (identifier : Identifier table) (outline : Outline table)
    {rows : List (Option (Item table))} (items : rows.reduceOption = outline.items) {raw : Text}
    (unix : Text.replaceAll ['\r', '\n'] ['\n'] raw = ofRows (textRows Item.text rows)) :
    let kept := textRows Item.text (keptRows (fun item => !item.isOwn) rows)
    sanitize table raw = layOut (collapseRows kept) ∧
      kept.reduceOption = outline.statements.map (·.text) := by
  intro kept
  constructor
  · have trimmed : AllTrimmed (textRows Item.text (dropRows (fun item => !item.isOwn) rows)) := by
      intro s member
      obtain ⟨row, inside, text⟩ := List.mem_map.1 member
      obtain ⟨item, rfl, rfl⟩ := Option.map_eq_some_iff.1 text
      have isOwn := (mem_dropRows_iff.1 (List.reduceOption_mem_iff.2 inside)).2
      cases item with
      | own statement => exact statement.trimmed
      | preamble | creation | start | entry | commit => cases isOwn
    rw [sanitize_eq, unix, strip_outline identifier outline items, trim_collapse_ofRows trimmed]
    simpa only [kept, layOut, textRows, collapseRows, List.map_map] using
      layOutFrom_dropRows (Option.map (collapseFrom 0) ∘ Option.map Item.text) rfl none rows
  · change ((keptRows _ rows).map (Option.map Item.text)).reduceOption = _
    rw [List.reduceOption_map, reduceOption_keptRows, items, outline.filter_isOwn,
      List.map_map]
    rfl

namespace Sample

def history : Text := "History".toList

/-- A block that makes sure of a schema. -/
def block : Block where
  inner := " BEGIN IF NOT EXISTS (SELECT 1 FROM pg_namespace WHERE nspname = 's') THEN\n".toList ++
    "CREATE SCHEMA s; END IF; ".toList
  schema := by decide +kernel
  whole := by decide +kernel
  uncontrolled := by decide +kernel

def definition : Definition history where
  columns := "\n    \"MigrationId\" varchar(150) PRIMARY KEY\n".toList
  balanced := by decide
  unopened := by decide +kernel
  block := by decide +kernel
  guard := by decide +kernel

/-- A migration makes sure of the schema by itself. -/
def ownBlock : Statement history where
  text := block.text
  trimmed := by decide +kernel
  ends := by decide
  uncontrolled := by decide +kernel
  unseparated := by decide +kernel
  apart := by decide +kernel
  unguarded := by decide +kernel
  block := Or.inr ⟨block, rfl⟩

def createUsers : Statement history where
  text := "CREATE TABLE \"Users\" (\n    \"Id\" int);".toList
  trimmed := by decide +kernel
  ends := by decide
  uncontrolled := by decide +kernel
  unseparated := by decide +kernel
  apart := by decide +kernel
  unguarded := by decide +kernel
  block := Or.inl (by decide +kernel)

def dropUsers : Statement history where
  text := "DROP TABLE \"Users\";".toList
  trimmed := by decide +kernel
  ends := by decide
  uncontrolled := by decide +kernel
  unseparated := by decide +kernel
  apart := by decide +kernel
  unguarded := by decide +kernel
  block := Or.inl (by decide +kernel)

def id : Value where
  text := "1_Users".toList
  plain := List.all_iff_forall_prop.1 (by decide)
  undotted := undotted_of_no_dot (by decide)
  block := by decide +kernel
  guard := by decide +kernel
  creation := by decide +kernel

def version : Value where
  text := "8.0.0".toList
  plain := List.all_iff_forall_prop.1 (by decide)
  undotted := undotted_of_no_close (List.all_iff_forall_prop.1 (by decide))
  block := by decide +kernel
  guard := by decide +kernel
  creation := by decide +kernel

theorem identifier_history : Identifier history :=
  ⟨by decide, List.all_iff_forall_prop.1 (by decide)⟩

theorem identifier_migrationId : Identifier "MigrationId".toList :=
  ⟨by decide, List.all_iff_forall_prop.1 (by decide)⟩

theorem identifier_productVersion : Identifier "ProductVersion".toList :=
  ⟨by decide, List.all_iff_forall_prop.1 (by decide)⟩

def lineEnd : {gap : Text // AllBlank gap} := ⟨['\n'], Text.allBlank_singleton (by decide)⟩

/-- The record of a migration that was brought in. -/
def recorded : Record :=
  .insertion ⟨_, identifier_migrationId⟩ ⟨_, identifier_productVersion⟩ lineEnd id version

/-- The record of a migration that was taken back. -/
def erased : Record := .deletion lineEnd id

/-- A migration with its own block, and behind it one that takes everything back. -/
def outline : Outline history where
  preambles := [block]
  creation := some definition
  stages := [⟨[], [ownBlock, createUsers], recorded⟩, ⟨[block], [dropUsers], erased⟩]

/-- The texts of the outline with blank lines between them. -/
def outlineRows : List (Option (Item history)) :=
  outline.items.flatMap fun item => [some item, none]

/-- What the migrations do themselves. -/
def ownStatements : Text :=
  block.text ++ "\n\n".toList ++ createUsers.text ++ "\n\n\n".toList ++ dropUsers.text

end Sample

/-- Around the statements of the migrations nothing is left. -/
theorem sanitize_outline_sample :
    sanitize Sample.history (ofRows (textRows Item.text Sample.outlineRows)) =
      Sample.ownStatements := by
  have unix : Text.replaceAll ['\r', '\n'] ['\n'] (ofRows (textRows Item.text Sample.outlineRows)) =
      ofRows (textRows Item.text Sample.outlineRows) := by
    decide +kernel
  refine (sanitize_outline Sample.identifier_history Sample.outline rfl unix).1.trans ?_
  decide +kernel

namespace Sample

/-- A script of two migrations, with the words that start a block in the name of the first one. -/
def blockInName : Text :=
  "START TRANSACTION;\n\nCREATE TABLE \"Users\" (\"Id\" int);\n\n".toList ++
    "INSERT INTO \"History\" (\"MigrationId\", \"ProductVersion\")\n".toList ++
    "VALUES ('DO $EF$', '8.0.0');\n\nCOMMIT;\n\n".toList ++
    block.text ++
    "\n\nSTART TRANSACTION;\n\nDROP TABLE \"Users\";\n\n".toList ++
    "DELETE FROM \"History\"\nWHERE \"MigrationId\" = 'b';\n\nCOMMIT;\n".toList

end Sample

/-- Of the migrations of a script the second one loses its statement if the recorded name of the
first one reads as the start of a block. -/
theorem statement_behind_name_lost :
    ¬ Sample.dropUsers.text <:+: sanitize Sample.history Sample.blockInName := by
  decide +kernel

end MigrationSquash.Script
