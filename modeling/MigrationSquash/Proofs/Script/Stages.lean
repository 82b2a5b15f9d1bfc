import MigrationSquash.Proofs.Script.Preambles

/-!
# Stages of an outline

The transactions of an outline are those of its stages: each goes from the line that starts it to
the line that ends it, and the preambles stand outside of all of them.  Main statement: the first
pass over a script removes the preambles and leaves the blocks that migrations have of their own.
-/

set_option autoImplicit false

namespace MigrationSquash.Script

open Text (joinLines pieces)

section Transactions

variable {total position : Nat} {opened : Option Nat} {lines : List Text} {span : Span}

/-- What a line does to change whether a transaction is open. -/
def turning (opened : Option Nat) : TransactionControl := if opened.isSome then .commit else .start

/-- Lines that do not change whether a transaction is open are passed over. -/
theorem transactionsFrom_append (total position : Nat) (others : List Text) (nonempty : lines ≠ [])
    (idle : ∀ line ∈ lines, transactionControl? line ≠ some (turning opened)) :
    transactionsFrom total opened position (lines ++ others) =
      transactionsFrom total opened (position + (joinLines lines).length + 1) others := by
  induction lines generalizing position with
  | nil => exact absurd rfl nonempty
  | cons line rest ih =>
      have here := idle line List.mem_cons_self
      have pass : transactionsFrom total opened position (line :: (rest ++ others)) =
          transactionsFrom total opened (position + line.length + 1) (rest ++ others) := by
        unfold turning at here
        cases opened <;> cases control : transactionControl? line with
        | none => simp only [transactionsFrom, control]
        | some change =>
            rw [control] at here
            cases change <;> first
              | exact absurd rfl here
              | simp only [transactionsFrom, control]
      rw [List.cons_append, pass]
      cases rest with
      | nil => rfl
      | cons next more =>
          have later := fun other member => idle other (List.mem_cons_of_mem line member)
          rw [ih _ (List.cons_ne_nil _ _) later, Text.joinLines_cons_cons, List.length_append, List.length_cons]
          congr 1
          omega

/-- What a line leaves open. -/
def openedBehind (opened : Option Nat) (position : Nat) (line : Text) : Option Nat :=
  match transactionControl? line, opened with
  | some .commit, _ => none
  | some .start, none => some position
  | _, opened => opened

theorem mem_transactionsFrom_cons {line : Text} :
    span ∈ transactionsFrom total opened position (line :: lines) ↔
      (∃ start ∈ opened, transactionControl? line = some .commit ∧
        span = ⟨start, min (position + line.length + 1) total⟩) ∨
      span ∈ transactionsFrom total (openedBehind opened position line)
        (position + line.length + 1) lines := by
  unfold openedBehind
  cases opened <;> cases control : transactionControl? line with
  | none => simp [transactionsFrom, control]
  | some change => cases change <;> simp [transactionsFrom, control]

/-- What is open behind a line started where something was open before, or with the line. -/
theorem openedBehind_bounds (started : ∀ start ∈ opened, start ≤ position) (line : Text) :
    (∀ start ∈ openedBehind opened position line, start ≤ position) ∧
      opened.getD position ≤
        (openedBehind opened position line).getD (position + line.length + 1) := by
  unfold openedBehind
  cases opened with
  | none =>
      split
      · exact ⟨nofun, by simp only [Option.getD_none]; omega⟩
      · exact ⟨fun _ same => Nat.le_of_eq (Option.some.inj same).symm, Nat.le_refl _⟩
      · exact ⟨nofun, by simp only [Option.getD_none]; omega⟩
  | some start =>
      have bound := started start rfl
      split
      · exact ⟨nofun, by simp only [Option.getD_none, Option.getD_some]; omega⟩
      · contradiction
      · exact ⟨started, Nat.le_refl _⟩

/-- A transaction starts where one is open or later. -/
theorem le_start_of_mem_transactionsFrom (started : ∀ start ∈ opened, start ≤ position)
    (member : span ∈ transactionsFrom total opened position lines) :
    opened.getD position ≤ span.start := by
  induction lines generalizing opened position with
  | nil =>
      cases opened with
      | none => cases member
      | some start =>
          obtain rfl := List.mem_singleton.1 member
          exact Nat.le_refl start
  | cons line rest ih =>
      rcases mem_transactionsFrom_cons.1 member with ⟨start, rfl, -, rfl⟩ | later
      · exact Nat.le_refl start
      · obtain ⟨behind, bound⟩ := openedBehind_bounds started line
        exact bound.trans (ih (fun start inside => by
          have := behind start inside
          omega) later)

/-- A transaction that is open goes at least up to the place. -/
theorem exists_mem_transactionsFrom (total start position : Nat) (lines : List Text) :
    ∃ stop, min position total ≤ stop ∧
      ⟨start, stop⟩ ∈ transactionsFrom total (some start) position lines := by
  induction lines generalizing position with
  | nil => exact ⟨total, Nat.min_le_right _ _, List.mem_singleton_self _⟩
  | cons line rest ih =>
      obtain ⟨stop, far, member⟩ := ih (position + line.length + 1)
      cases control : transactionControl? line with
      | none =>
          refine ⟨stop, by omega, ?_⟩
          simpa only [transactionsFrom, control] using member
      | some change =>
          cases change with
          | start =>
              refine ⟨stop, by omega, ?_⟩
              simpa only [transactionsFrom, control] using member
          | commit =>
              refine ⟨min (position + line.length + 1) total, by omega, ?_⟩
              simp only [transactionsFrom, control]
              exact List.mem_cons_self

end Transactions

namespace Item

variable {table : Text}

/-- Whether the item is a block. -/
def isBlock : Item table → Bool
  | preamble _ => true
  | own statement => !decide (Lacks (.word blockMarker) statement.text)
  | creation _ | start | entry _ | commit => false

/-- The items follow each other as those of a script; `inside` says whether they start inside of a
transaction. -/
def Ordered : Bool → List (Item table) → Prop
  | _, [] => True
  | false, preamble _ :: rest | false, creation _ :: rest => Ordered false rest
  | false, start :: rest => Ordered true rest
  | true, own _ :: rest | true, entry _ :: rest => Ordered true rest
  | true, commit :: rest => Ordered false rest
  | false, own _ :: _ | false, entry _ :: _ | false, commit :: _ => False
  | true, preamble _ :: _ | true, creation _ :: _ | true, start :: _ => False

theorem text_ne_nil (item : Item table) : item.text ≠ [] := by
  intro empty
  have ends := item.getLast?_text
  rw [empty] at ends
  cases ends

/-- Where no transaction is open, a block stands outside of all that come later. -/
theorem any_isWithin_eq_false {total position length : Nat} {earlier : List Span} {lines : List Text}
    (before : ∀ span ∈ earlier, span.stop ≤ position) (shown : 0 < length) :
    (earlier ++ transactionsFrom total none (position + length + 1) lines).any
      (Span.isWithin ⟨position, position + length⟩) = false := by
  rw [List.any_eq_false]
  intro outer member inside
  simp only [Span.isWithin, Bool.and_eq_true, decide_eq_true_eq] at inside
  rcases List.mem_append.1 member with early | late
  · have stop := before outer early
    omega
  · have start := le_start_of_mem_transactionsFrom
      (fun _ member => absurd member (Option.not_mem_none _)) late
    rw [Option.getD_none] at start
    omega

/-- Where a transaction is open, a block stands inside of it. -/
theorem any_isWithin_eq_true {total position length start : Nat} {earlier : List Span}
    {lines : List Text} (fits : position + length ≤ total) (started : start ≤ position) :
    (earlier ++ transactionsFrom total (some start) (position + length + 1) lines).any
      (Span.isWithin ⟨position, position + length⟩) = true := by
  obtain ⟨stop, far, member⟩ :=
    exists_mem_transactionsFrom total start (position + length + 1) lines
  refine List.any_eq_true.2 ⟨_, List.mem_append_right _ member, ?_⟩
  simp only [Span.isWithin, Bool.and_eq_true, decide_eq_true_eq]
  omega

variable {total position : Nat} {opened : Option Nat} {earlier : List Span}
  {rows : List (Option (Item table))}

/-- An item that neither starts nor ends a transaction is passed over. -/
theorem transactionsFrom_idle {item : Item table}
    (idle : ∀ line ∈ pieces item.text, transactionControl? line ≠ some (turning opened)) :
    transactionsFrom total opened position (lineRows text (some item :: rows)) =
      transactionsFrom total opened (position + item.text.length + 1) (lineRows text rows) := by
  have shift := transactionsFrom_append total position (lineRows text rows)
    (Text.pieces_ne_nil item.text) idle
  rw [Text.joinLines_pieces] at shift
  exact shift

theorem transactionsFrom_start (rows : List (Option (Item table))) :
    transactionsFrom total none position (lineRows text (some (start : Item table) :: rows)) =
      transactionsFrom total (some position) (position + (start : Item table).text.length + 1)
        (lineRows text rows) := rfl

theorem transactionsFrom_commit (begun : Nat) (rows : List (Option (Item table))) :
    transactionsFrom total (some begun) position (lineRows text (some (commit : Item table) :: rows)) =
      ⟨begun, min (position + (commit : Item table).text.length + 1) total⟩ ::
        transactionsFrom total none (position + (commit : Item table).text.length + 1)
          (lineRows text rows) := rfl

theorem transactionsFrom_blank (rows : List (Option (Item table))) :
    transactionsFrom total opened position (lineRows text (none :: rows)) =
      transactionsFrom total opened (position + 1) (lineRows text rows) := by
  cases opened <;> rfl

/-- What an item leaves open. -/
def openedBy (opened : Option Nat) (position : Nat) : Item table → Option Nat
  | start => some position
  | commit => none
  | preamble _ | creation _ | own _ | entry _ => opened

/-- The transaction that an item ends. -/
def ended (total : Nat) (opened : Option Nat) (position : Nat) : Item table → List Span
  | commit => opened.toList.map fun begun =>
      ⟨begun, min (position + (commit : Item table).text.length + 1) total⟩
  | preamble _ | creation _ | start | own _ | entry _ => []

section Step

variable {item : Item table} {rest : List (Item table)}

theorem Ordered.behind (ordered : Ordered opened.isSome (item :: rest)) (position : Nat) :
    Ordered (item.openedBy opened position).isSome rest := by
  cases opened <;> cases item <;> first | exact ordered | exact ordered.elim

theorem le_of_mem_openedBy (started : ∀ start ∈ opened, start ≤ position) :
    ∀ start ∈ item.openedBy opened position, start ≤ position := by
  cases item with
  | start => exact fun _ same => Nat.le_of_eq (Option.some.inj same).symm
  | commit => nofun
  | preamble _ | creation _ | own _ | entry _ => exact started

theorem stop_of_mem_ended {span : Span} (member : span ∈ item.ended total opened position) :
    span.stop ≤ position + item.text.length + 1 := by
  cases item with
  | commit =>
      obtain ⟨begun, -, rfl⟩ := List.mem_map.1 member
      exact Nat.min_le_left _ _
  | preamble _ | creation _ | start | own _ | entry _ => cases member

/-- The transactions go on behind an item with what it leaves open. -/
theorem transactionsFrom_item (identifier : Identifier table)
    (ordered : Ordered opened.isSome (item :: rest)) :
    transactionsFrom total opened position (lineRows text (some item :: rows)) =
      item.ended total opened position ++
        transactionsFrom total (item.openedBy opened position) (position + item.text.length + 1)
          (lineRows text rows) := by
  have uncontrolled (none : Uncontrolled item.text) : ∀ line ∈ pieces item.text,
      transactionControl? line ≠ some (turning opened) := by
    intro line member control
    rw [none line member] at control
    cases control
  cases item with
  | preamble block => exact transactionsFrom_idle (uncontrolled block.uncontrolled)
  | own statement => exact transactionsFrom_idle (uncontrolled statement.uncontrolled)
  | entry record => exact transactionsFrom_idle (uncontrolled (record.uncontrolled identifier))
  | creation definition =>
      cases opened with
      | some begun => exact ordered.elim
      | none => exact transactionsFrom_idle definition.unopened
  | start =>
      cases opened with
      | some begun => exact ordered.elim
      | none => exact transactionsFrom_start rows
  | commit =>
      cases opened with
      | none => exact ordered.elim
      | some begun => exact transactionsFrom_commit begun rows

/-- A preamble is outside of all transactions, and a block of a migration is inside of one. -/
theorem filter_itemSpan {lines : List Text} (ordered : Ordered opened.isSome (item :: rest))
    (fits : item.isBlock = true → position + item.text.length ≤ total)
    (before : ∀ span ∈ earlier, span.stop ≤ position)
    (started : ∀ start ∈ opened, start ≤ position) :
    (if item.isBlock then [⟨position, position + item.text.length⟩] else [] : List Span).filter
        (fun span => !(earlier ++ (item.ended total opened position ++
          transactionsFrom total (item.openedBy opened position) (position + item.text.length + 1)
            lines)).any span.isWithin) =
      if item.isPreamble then [⟨position, position + item.text.length⟩] else [] := by
  have shown : 0 < item.text.length := List.length_pos_iff.2 item.text_ne_nil
  cases item with
  | preamble block =>
      cases opened with
      | some begun => exact ordered.elim
      | none =>
          refine List.filter_eq_self.2 fun span member => ?_
          rw [List.mem_singleton.1 member]
          exact congrArg not (any_isWithin_eq_false before shown)
  | own statement =>
      cases opened with
      | none => exact ordered.elim
      | some begun =>
          split
          · next isBlock =>
              refine List.filter_eq_nil_iff.2 fun span member => ?_
              rw [List.mem_singleton.1 member, Bool.not_eq_true', Bool.not_eq_false]
              exact any_isWithin_eq_true (fits isBlock) (started begun rfl)
          · rfl
  | creation _ | start | entry _ | commit => rfl

end Step

/-- Of the blocks the preambles are those that stand outside of all transactions. -/
theorem filter_rowSpans (identifier : Identifier table)
    (ordered : Ordered opened.isSome rows.reduceOption)
    (fits : ∀ span ∈ rowSpans text isBlock position rows, span.stop ≤ total)
    (before : ∀ span ∈ earlier, span.stop ≤ position)
    (started : ∀ start ∈ opened, start ≤ position) :
    (rowSpans text isBlock position rows).filter (fun span =>
        !(earlier ++ transactionsFrom total opened position (lineRows text rows)).any span.isWithin) =
      rowSpans text isPreamble position rows := by
  induction rows generalizing position opened earlier with
  | nil => rfl
  | cons row rest ih =>
      cases row with
      | none =>
          rw [transactionsFrom_blank]
          exact ih ordered fits (fun span member => (before span member).trans (Nat.le_succ _))
            fun start inside => (started start inside).trans (Nat.le_succ _)
      | some item =>
          rw [List.reduceOption_cons_of_some] at ordered
          have own : item.isBlock = true → position + item.text.length ≤ total := fun isBlock =>
            fits ⟨position, position + item.text.length⟩
              (List.mem_append_left _ (by rw [if_pos isBlock]; exact List.mem_singleton_self _))
          have behind : ∀ span ∈ earlier ++ item.ended total opened position,
              span.stop ≤ position + item.text.length + 1 := by
            intro span member
            rcases List.mem_append.1 member with early | here
            · exact (before span early).trans (by omega)
            · exact stop_of_mem_ended here
          have later := ih (ordered.behind position)
            (fun span member => fits span (List.mem_append_right _ member)) behind
            fun start inside => (le_of_mem_openedBy started start inside).trans (by omega)
          simp only [List.append_assoc] at later
          rw [rowSpans, rowSpans, List.filter_append, transactionsFrom_item identifier ordered]
          exact congrArg₂ (· ++ ·) (filter_itemSpan ordered own before started) later

/-- A text that starts no block lacks the start of a block. -/
theorem lacks_opensBlock (identifier : Identifier table) {item : Item table}
    (noBlock : item.isBlock = false) : Lacks opensBlock item.text := by
  cases item with
  | preamble block => cases noBlock
  | creation definition =>
      exact definition.lacks identifier (List.all_iff_forall_prop.1 (by decide +kernel))
        (by decide +kernel) definition.block
  | start => exact (by decide +kernel : Lacks opensBlock "START TRANSACTION;".toList)
  | own statement =>
      rw [isBlock, Bool.not_eq_false', decide_eq_true_eq] at noBlock
      exact lacks_phrase_of_lacks_word noBlock
  | entry record =>
      refine foreign_opensBlock.record identifier record fun value _ => value.block
  | commit => exact (by decide +kernel : Lacks opensBlock "COMMIT;".toList)

/-- A block is read as one. -/
theorem exists_block {item : Item table} (isBlock : item.isBlock = true) :
    ∃ block : Block, item.text = block.text := by
  cases item with
  | preamble block => exact ⟨block, rfl⟩
  | own statement =>
      rcases statement.block with lacks | ⟨block, same⟩
      · simp [Item.isBlock, lacks] at isBlock
      · exact ⟨block, same.symm⟩
  | creation | start | entry | commit => cases isBlock

end Item

section Preambles

variable {table : Text} {rows : List (Option (Item table))}

theorem text_of_mem_rowSpans {front : Text} {removed : Item table → Bool} {span : Span}
    (member : span ∈ rowSpans Item.text removed front.length rows) :
    ∃ item, removed item = true ∧
      span.text (front ++ ofRows (textRows Item.text rows)) = item.text ∧
      span.stop ≤ (front ++ ofRows (textRows Item.text rows)).length := by
  induction rows generalizing front with
  | nil => cases member
  | cons row rest ih =>
      rw [rowSpans_cons] at member
      rcases List.mem_append.1 member with here | later
      · cases row with
        | none => cases here
        | some item =>
            have isRemoved : removed item = true := by
              by_contra kept
              rw [Option.any_some, if_neg kept] at here
              cases here
            rw [Option.any_some, if_pos isRemoved, List.mem_singleton] at here
            refine ⟨item, isRemoved, ?_⟩
            change span.text (front ++ ofRows (some item.text :: textRows Item.text rest)) = _ ∧
              span.stop ≤ (front ++ ofRows (some item.text :: textRows Item.text rest)).length
            rw [here, ofRows_cons, Option.map_some, Option.getD_some, Span.text,
              List.take_length_add_append, List.take_left, List.drop_left, List.length_append,
              List.length_append]
            exact ⟨rfl, Nat.add_le_add_left (Nat.le_add_right _ _) _⟩
      · cases rest with
        | nil => cases later
        | cons next more =>
            have further := @ih (front ++ ((row.map Item.text).getD [] ++ ['\n'])) (by
              simpa only [List.length_append, List.length_singleton, Nat.add_assoc] using later)
            rw [ofRows_textRows_cons row (List.cons_ne_nil next more)]
            simpa only [List.append_assoc, List.singleton_append] using further

/-- The first pass removes the preambles. -/
theorem removePreambles_rows (identifier : Identifier table)
    (ordered : Item.Ordered false rows.reduceOption) :
    removePreambles (ofRows (textRows Item.text rows)) =
      ofRows (textRows Item.text (dropRows Item.isPreamble rows)) := by
  have found : occurrences preamble (ofRows (textRows Item.text rows)) =
      rowSpans Item.text Item.isBlock 0 rows := by
    refine spans_textRows (findsVisible_occurrences opens_preamble) (fun item after _ isBlock => ?_)
      fun item after _ noBlock => ?_
    · obtain ⟨block, same⟩ := Item.exists_block isBlock
      rw [same]
      exact finds_occurrences (prefers_preamble block _) (same ▸ item.text_ne_nil)
    · exact skips_occurrences (free_preamble item.getLast?_text
        (Item.lacks_opensBlock identifier noBlock) _)
  have read {span : Span} (member : span ∈ rowSpans Item.text Item.isBlock 0 rows) :=
    @text_of_mem_rowSpans table rows [] Item.isBlock span member
  have fits : ∀ span ∈ rowSpans Item.text Item.isBlock 0 rows,
      span.stop ≤ (ofRows (textRows Item.text rows)).length := by
    intro span member
    obtain ⟨_, -, -, bound⟩ := read member
    exact bound
  have schema : ∀ span ∈ rowSpans Item.text Item.isBlock 0 rows, Text.containsIgnoringCase
      (span.text (ofRows (textRows Item.text rows))) "pg_namespace".toList = true := by
    intro span member
    obtain ⟨item, isBlock, same, -⟩ := read member
    obtain ⟨block, whole⟩ := Item.exists_block isBlock
    rw [List.nil_append] at same
    rw [same, whole]
    exact containsIgnoringCase_append "DO $EF$".toList "END $EF$;".toList block.schema
  have outer : outerPreambles (ofRows (textRows Item.text rows)) =
      rowSpans Item.text Item.isPreamble 0 rows := by
    cases rows with
    | nil => rfl
    | cons row rest =>
        rw [outerPreambles, found, transactions, pieces_textRows (List.cons_ne_nil row rest)]
        refine (List.filter_congr fun span member => ?_).trans
          (@Item.filter_rowSpans table _ 0 none [] (row :: rest) identifier ordered fits
            (fun _ member => absurd member List.not_mem_nil)
            fun _ member => absurd member (Option.not_mem_none _))
        rw [schema span member, Bool.true_and, List.nil_append]
  exact (congrArg (cut _) outer).trans (cut_rowSpans rows)

end Preambles

end MigrationSquash.Script
