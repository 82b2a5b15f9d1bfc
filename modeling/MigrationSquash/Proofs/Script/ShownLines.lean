import MigrationSquash.Proofs.Script.BlankRuns

/-!
# Lines that show something

The lines of a text without the blanks around them, less those of which nothing is left.  Main
statements: shortening the runs of blank lines and trimming the ends of a text leave these lines as
they are, and they decide whether each batch of a script holds something.
-/

set_option autoImplicit false

namespace MigrationSquash.Script

open Text (AllBlank Unbroken isBlank joinLines pieces trim)

/-- The lines without the blanks around them, less those of which nothing is left. -/
def shownLines (lines : List Text) : List Text := (lines.map trim).filter (!·.isEmpty)

section Shown

variable {line other s t : Text} {lines rest : List Text}

@[simp] theorem shownLines_nil : shownLines [] = [] := rfl

@[simp] theorem shownLines_append (lines rest : List Text) :
    shownLines (lines ++ rest) = shownLines lines ++ shownLines rest := by
  simp [shownLines]

theorem shownLines_cons (line : Text) (rest : List Text) :
    shownLines (line :: rest) = shownLines [line] ++ shownLines rest :=
  shownLines_append [line] rest

theorem shownLines_singleton_of_allBlank (blank : AllBlank line) : shownLines [line] = [] := by
  simp [shownLines, Text.trim_of_allBlank blank]

theorem shownLines_singleton_congr (same : trim line = trim other) :
    shownLines [line] = shownLines [other] := by
  simp [shownLines, same]

theorem shownLines_singleton_of_not_allBlank (shown : ¬ AllBlank line) :
    shownLines [line] = [trim line] := by
  have nonempty : trim line ≠ [] := fun empty => shown (Text.allBlank_of_trim_eq_nil empty)
  simp [shownLines, nonempty]

theorem shownLines_of_allBlank (blank : ∀ line ∈ lines, AllBlank line) : shownLines lines = [] := by
  induction lines with
  | nil => rfl
  | cons line rest ih =>
      rw [shownLines_cons, shownLines_singleton_of_allBlank (blank line List.mem_cons_self),
        ih fun other member => blank other (List.mem_cons_of_mem _ member), List.nil_append]

theorem mem_shownLines_iff {shown : Text} :
    shown ∈ shownLines lines ↔ shown ≠ [] ∧ ∃ line ∈ lines, trim line = shown := by
  simp [shownLines, and_comm]

theorem allBlank_of_mem_pieces (blank : AllBlank s) (member : line ∈ pieces s) : AllBlank line := by
  intro c inside
  apply blank
  rw [← Text.joinLines_pieces s]
  exact Text.mem_joinLines_of_mem member inside

theorem shownLines_pieces_joinLines (unbroken : ∀ line ∈ lines, Unbroken line) :
    shownLines (pieces (joinLines lines)) = shownLines lines := by
  cases lines with
  | nil => rfl
  | cons line rest => rw [Text.pieces_joinLines (List.cons_ne_nil line rest) unbroken]

theorem shownLines_pieces_blanks_append (blank : AllBlank s) (t : Text) :
    shownLines (pieces (s ++ t)) = shownLines (pieces t) := by
  induction s with
  | nil => rfl
  | cons c rest ih =>
      obtain ⟨first, later⟩ := List.forall_mem_cons.1 blank
      rw [List.cons_append, ← ih later]
      by_cases feed : c = '\n'
      · rw [feed, pieces, shownLines_cons, shownLines_singleton_of_allBlank (by simp [AllBlank]),
          List.nil_append]
      · obtain ⟨piece, more, split, result⟩ := Text.pieces_cons_of_ne (rest ++ t) feed
        have same := Text.trim_blanks_append (Text.allBlank_singleton first) piece
        rw [result, split, shownLines_cons, shownLines_cons piece]
        have first : shownLines [c :: piece] = shownLines [piece] := shownLines_singleton_congr same
        rw [first]

theorem shownLines_pieces_append_blanks (s : Text) (blank : AllBlank t) :
    shownLines (pieces (s ++ t)) = shownLines (pieces s) := by
  have onLine {t : Text} (blank : AllBlank t) (unbroken : Unbroken t) :
      shownLines (pieces (s ++ t)) = shownLines (pieces s) := by
    obtain ⟨front, last, split, longer⟩ := Text.exists_pieces_append unbroken s
    rw [longer, split, shownLines_append, shownLines_append,
      shownLines_singleton_congr (Text.trim_append_blanks blank last)]
  by_cases feed : '\n' ∈ t
  · obtain ⟨line, more, rfl, unbroken⟩ := List.eq_append_cons_of_mem feed
    rw [AllBlank, List.forall_mem_append, List.forall_mem_cons] at blank
    obtain ⟨here, -, behind⟩ := blank
    rw [← List.append_assoc, Text.pieces_append_feed, shownLines_append, onLine here unbroken,
      shownLines_of_allBlank fun _ member => allBlank_of_mem_pieces behind member, List.append_nil]
  · exact onLine blank feed

theorem shownLines_pieces_trim (s : Text) :
    shownLines (pieces (trim s)) = shownLines (pieces s) := by
  obtain ⟨front, back, split, frontBlank, backBlank⟩ := Text.blanks_append_trim s
  have same := shownLines_pieces_blanks_append frontBlank (trim s ++ back)
  rw [← split, shownLines_pieces_append_blanks _ backBlank] at same
  exact same.symm

theorem pieces_ended (unbroken : ∀ line ∈ lines, Unbroken line) (s : Text) :
    pieces (ended lines ++ s) = lines ++ pieces s := by
  induction lines with
  | nil => rfl
  | cons line rest ih =>
      obtain ⟨first, later⟩ := List.forall_mem_cons.1 unbroken
      rw [ended_cons, List.append_assoc, List.cons_append, (Text.pieces_append first _).1, ih later,
        List.cons_append]

theorem Indents.unbroken (indents : Indents lines) (member : line ∈ lines) : Unbroken line :=
  fun feed => ne_feed_of_isIndent (indents line member _ feed) rfl

/-- Two texts start with the same line, and their other lines show the same. -/
def ShowSame (s t : Text) : Prop :=
  ∃ first others others', pieces s = first :: others ∧ pieces t = first :: others' ∧
    shownLines others = shownLines others'

theorem ShowSame.shownLines_eq (same : ShowSame s t) :
    shownLines (pieces s) = shownLines (pieces t) := by
  obtain ⟨first, others, others', left, right, later⟩ := same
  rw [left, right, shownLines_cons first others, shownLines_cons first others', later]

theorem showSame_collapse (s : Text) : ShowSame s (collapseFrom 0 s) := by
  refine collapse_induction (motive := ShowSame) ?nil ?keep ?run s
  case nil => exact ⟨[], [], [], rfl, rfl, rfl⟩
  case keep =>
    intro c s _ same
    by_cases feed : c = '\n'
    · rw [feed]
      exact ⟨[], _, _, by rw [pieces], by rw [pieces], same.shownLines_eq⟩
    · obtain ⟨first, others, others', left, right, later⟩ := same
      obtain ⟨_, _, split, result⟩ := Text.pieces_cons_of_ne s feed
      obtain ⟨_, _, split', result'⟩ := Text.pieces_cons_of_ne (collapseFrom 0 s) feed
      rw [left] at split
      rw [right] at split'
      obtain ⟨rfl, rfl⟩ := List.cons.inj split
      obtain ⟨rfl, rfl⟩ := List.cons.inj split'
      exact ⟨_, _, _, result, result', later⟩
  case run =>
    intro blanks rest indents _ _ same
    have left : pieces ('\n' :: (ended blanks ++ rest)) = [] :: (blanks ++ pieces rest) := by
      rw [pieces, pieces_ended fun _ member => indents.unbroken member]
    have right : pieces (['\n', '\n', '\n'] ++ collapseFrom 0 rest) =
        [] :: ([[], []] ++ pieces (collapseFrom 0 rest)) := by
      simp [pieces]
    refine ⟨_, _, _, left, right, ?_⟩
    have blank : ∀ line ∈ blanks, AllBlank line := fun line member c inside =>
      Text.isBlank_of_isIndent (indents line member c inside)
    rw [shownLines_append, shownLines_append, shownLines_of_allBlank blank, same.shownLines_eq]
    rfl

end Shown

section Batches

variable {filled : Bool} {line : Text} {lines rest : List Text}

/-- Each separator ends a batch that holds something; `filled` says whether the batch so far holds
something. -/
def Closes : Bool → List Text → Prop
  | _, [] => True
  | filled, line :: rest =>
      if isSeparator line then filled = true ∧ Closes false rest
      else Closes (filled || !Text.isBlankText line) rest

theorem closes_dropEmptyFrom (filled : Bool) (lines : List Text) :
    Closes filled (dropEmptyFrom filled lines) := by
  induction lines generalizing filled with
  | nil => trivial
  | cons line rest ih =>
      rw [dropEmptyFrom]
      split
      · rename_i separates
        cases filled with
        | false => exact ih false
        | true => simp [Closes, separates, ih]
      · rename_i other
        simp [Closes, other, ih]

theorem isSeparator_congr {other : Text} (same : trim line = trim other) :
    isSeparator line = isSeparator other := by
  rw [isSeparator, isSeparator, same]

theorem isSeparator_of_allBlank (blank : AllBlank line) : isSeparator line = false := by
  rw [isSeparator, Text.trim_of_allBlank blank]
  decide

theorem closes_shownLines_iff : Closes filled (shownLines lines) ↔ Closes filled lines := by
  induction lines generalizing filled with
  | nil => rfl
  | cons line rest ih =>
      rw [shownLines_cons]
      by_cases blank : AllBlank line
      · rw [shownLines_singleton_of_allBlank blank, List.nil_append, ih, Closes,
          isSeparator_of_allBlank blank, Text.allBlank_iff.1 blank]
        simp
      · have shown : Text.isBlankText line = false :=
          Bool.eq_false_iff.2 fun blankText => blank (Text.allBlank_iff.2 blankText)
        have trimmed : Text.isBlankText (trim line) = false := by
          refine Bool.eq_false_iff.2 fun blankText => blank (Text.allBlank_of_trim_eq_nil ?_)
          rw [← Text.trim_trim, Text.trim_of_allBlank (Text.allBlank_iff.2 blankText)]
        rw [shownLines_singleton_of_not_allBlank blank, List.singleton_append, Closes, Closes, ih,
          ih, isSeparator_congr (Text.trim_trim line), shown, trimmed]

/-- Between a separator and the one before it, or the start, a line shows something. -/
theorem Closes.exists_batch (closes : Closes filled lines) {before after : List Text}
    (split : lines = before ++ line :: after) (separates : isSeparator line = true) :
    (filled = true ∧ ∀ other ∈ before, isSeparator other = false) ∨
      ∃ front batch, before = front ++ batch ∧ (∀ other ∈ batch, isSeparator other = false) ∧
        ∃ content ∈ batch, ¬ AllBlank content := by
  induction lines generalizing filled before with
  | nil => simp at split
  | cons first rest ih =>
      rw [Closes] at closes
      cases before with
      | nil =>
          obtain ⟨rfl, rfl⟩ := List.cons.inj split
          rw [if_pos separates] at closes
          exact Or.inl ⟨closes.1, by simp⟩
      | cons other more =>
          obtain ⟨rfl, later⟩ := List.cons.inj split
          split at closes
          · rcases ih closes.2 later with ⟨impossible, -⟩ | ⟨front, batch, rfl, found⟩
            · cases impossible
            · exact Or.inr ⟨first :: front, batch, rfl, found⟩
          · rename_i noSeparator
            rw [Bool.not_eq_true] at noSeparator
            rcases ih closes later with ⟨shows, none⟩ | ⟨front, batch, rfl, found⟩
            · have only : ∀ other ∈ first :: more, isSeparator other = false :=
                List.forall_mem_cons.2 ⟨noSeparator, none⟩
              rcases Bool.or_eq_true_iff.1 shows with before | here
              · exact Or.inl ⟨before, only⟩
              · refine Or.inr ⟨[], first :: more, rfl, only, first, List.mem_cons_self, ?_⟩
                simpa [Text.allBlank_iff] using here
            · exact Or.inr ⟨first :: front, batch, rfl, found⟩

end Batches

end MigrationSquash.Script
