import MigrationSquash.Proofs.Script.NormalForm

/-!
# Batches

The separators of a script divide its lines into batches.  Main statement: where the separators of
batches that hold nothing are dropped, all other lines stay in their order, no two batches that hold
something become one and none is lost, every separator that is left ends a batch that holds
something, and nothing is left to be dropped.
-/

set_option autoImplicit false

namespace MigrationSquash.Script

open Text (AllBlank Unbroken isBlankText joinLines pieces)

/-- The lines that separate nothing. -/
def ownLines (lines : List Text) : List Text := lines.filter (!isSeparator ·)

/-- The lines before, between and behind the separators. -/
def batches (lines : List Text) : List (List Text) := lines.splitOnP isSeparator

/-- The lines of a batch that are not blank. -/
def held (batch : List Text) : List Text := batch.filter (!isBlankText ·)

/-- What the batches hold, one after the other, less those that hold nothing. -/
def holdings (batches : List (List Text)) : List (List Text) :=
  (batches.map held).filter (!·.isEmpty)

section Lists

variable {filled : Bool} {line : Text} {lines front rest batch : List Text}
  {first second : List (List Text)}

theorem batches_ne_nil (lines : List Text) : batches lines ≠ [] := List.splitOnP_ne_nil _ _

theorem batches_separator (own : ∀ line ∈ front, isSeparator line = false)
    (separates : isSeparator line = true) (rest : List Text) :
    batches (front ++ line :: rest) = front :: batches rest := by
  rw [batches, List.splitOnP_append_cons _ _ separates, List.splitOnP_eq_singleton own]
  rfl

@[simp] theorem holdings_append (first second : List (List Text)) :
    holdings (first ++ second) = holdings first ++ holdings second := by
  simp [holdings]

theorem holdings_cons (batch : List Text) (rest : List (List Text)) :
    holdings (batch :: rest) = holdings [batch] ++ holdings rest :=
  holdings_append [batch] rest

theorem holdings_singleton_of_blank (blank : ∀ line ∈ batch, isBlankText line = true) :
    holdings [batch] = [] := by
  have nothing : held batch = [] := List.filter_eq_nil_iff.2 fun line member => by
    simp [blank line member]
  simp [holdings, nothing]

/-- Blank lines in front of the first batch change nothing of what the batches hold. -/
theorem holdings_batches_blank_append (blank : ∀ line ∈ front, isBlankText line = true)
    (rest : List Text) : holdings (batches (front ++ rest)) = holdings (batches rest) := by
  induction front with
  | nil => rfl
  | cons line more ih =>
      obtain ⟨here, later⟩ := List.forall_mem_cons.1 blank
      have own : isSeparator line = false := isSeparator_of_allBlank (Text.allBlank_iff.2 here)
      obtain ⟨first, others, split⟩ := List.exists_cons_of_ne_nil (batches_ne_nil (more ++ rest))
      have longer : batches (line :: (more ++ rest)) = (line :: first) :: others := by
        rw [batches, List.splitOnP_cons_eq_if_modifyHead, own]
        exact congrArg (List.modifyHead (line :: ·)) split
      have same : held (line :: first) = held first := by simp [held, here]
      rw [List.cons_append, longer, ← ih later, split, holdings, holdings, List.map_cons,
        List.map_cons, same]

theorem ownLines_dropEmptyFrom (filled : Bool) (lines : List Text) :
    ownLines (dropEmptyFrom filled lines) = ownLines lines := by
  induction lines generalizing filled with
  | nil => rfl
  | cons line rest ih =>
      rw [dropEmptyFrom]
      split
      · rename_i separates
        cases filled <;> simpa [ownLines, separates] using ih false
      · rename_i other
        simpa [ownLines, other] using ih _

/-- The flag of the pass says whether the lines since the last separator hold something. -/
theorem held_concat_isEmpty (flag : filled = !(held front).isEmpty) (line : Text) :
    (filled || !isBlankText line) = !(held (front ++ [line])).isEmpty := by
  rw [flag]
  cases blank : isBlankText line <;> simp [held, blank]

/-- What the batches hold stays, where `front` are the lines since the last separator. -/
theorem holdings_dropEmptyFrom (own : ∀ line ∈ front, isSeparator line = false)
    (flag : filled = !(held front).isEmpty) :
    holdings (batches (front ++ dropEmptyFrom filled lines)) =
      holdings (batches (front ++ lines)) := by
  induction lines generalizing filled front with
  | nil => rfl
  | cons line rest ih =>
      have later : holdings (batches ([] ++ dropEmptyFrom false rest)) =
          holdings (batches ([] ++ rest)) := ih (List.forall_mem_nil _) rfl
      rw [List.nil_append, List.nil_append] at later
      rw [dropEmptyFrom]
      split
      · rename_i separates
        rw [batches_separator own separates, holdings_cons, ← later, ← holdings_cons]
        cases filled with
        | true => rw [if_pos rfl, List.singleton_append, batches_separator own separates]
        | false =>
            -- The separator is gone, and the blank lines before it now start the next batch.
            have blank : ∀ line ∈ front, isBlankText line = true := by
              simpa [held, List.filter_eq_nil_iff] using flag
            rw [if_neg Bool.false_ne_true, List.nil_append, holdings_batches_blank_append blank,
              holdings_cons, holdings_singleton_of_blank blank, List.nil_append]
      · rename_i other
        have same := ih
          (List.forall_mem_append.2 ⟨own, List.forall_mem_singleton.2 (Bool.eq_false_iff.2 other)⟩)
          (held_concat_isEmpty flag line)
        simpa only [List.append_assoc, List.singleton_append] using same

theorem Closes.held_ne_nil (closes : Closes filled lines)
    (own : ∀ line ∈ front, isSeparator line = false) (flag : filled = !(held front).isEmpty)
    (member : batch ∈ (batches (front ++ lines)).dropLast) : held batch ≠ [] := by
  induction lines generalizing filled front with
  | nil =>
      rw [List.append_nil, batches, List.splitOnP_eq_singleton own] at member
      cases member
  | cons line rest ih =>
      rw [Closes] at closes
      split at closes
      · rename_i separates
        obtain ⟨rfl, later⟩ := closes
        rw [batches_separator own separates,
          List.dropLast_cons_of_ne_nil (batches_ne_nil rest)] at member
        rcases List.mem_cons.1 member with rfl | behind
        · simpa using flag
        · exact ih later (List.forall_mem_nil _) rfl behind
      · rename_i other
        rw [List.append_cons] at member
        exact ih closes
          (List.forall_mem_append.2 ⟨own, List.forall_mem_singleton.2 (Bool.eq_false_iff.2 other)⟩)
          (held_concat_isEmpty flag line) member

theorem Closes.dropEmptyFrom_eq (closes : Closes filled lines) :
    dropEmptyFrom filled lines = lines := by
  induction lines generalizing filled with
  | nil => rfl
  | cons line rest ih =>
      rw [Closes] at closes
      rw [dropEmptyFrom]
      split at closes
      · rename_i separates
        rw [if_pos separates, closes.1, ih closes.2]
        rfl
      · rename_i other
        rw [if_neg other, ih closes]

end Lists

/-- The lines of the text that is left are the lines that are left, unless there are none. -/
theorem pieces_dropEmptyBatches (s : Text) :
    pieces (dropEmptyBatches s) = dropEmptyFrom false (pieces s) ∨
      ownLines (pieces s) = [] ∧ dropEmptyFrom false (pieces s) = [] ∧ dropEmptyBatches s = [] := by
  by_cases nothing : dropEmptyFrom false (pieces s) = []
  · have own := ownLines_dropEmptyFrom false (pieces s)
    rw [nothing] at own
    exact Or.inr ⟨own.symm, nothing, by rw [dropEmptyBatches, nothing]; rfl⟩
  · exact Or.inl (Text.pieces_joinLines nothing fun line member =>
      Text.unbroken_of_mem_pieces ((dropEmptyFrom_sublist false (pieces s)).subset member))

/-- Where the separators of empty batches are dropped, the other lines and what the batches hold
stay, every separator that is left ends a batch that holds something, and a second pass drops
nothing.  Of a text of separators alone nothing is left. -/
theorem dropEmptyBatches_keeps (s : Text) :
    joinLines (ownLines (pieces (dropEmptyBatches s))) = joinLines (ownLines (pieces s)) ∧
      (ownLines (pieces s) ≠ [] →
        ownLines (pieces (dropEmptyBatches s)) = ownLines (pieces s)) ∧
      holdings (batches (pieces (dropEmptyBatches s))) = holdings (batches (pieces s)) ∧
      (∀ batch ∈ (batches (pieces (dropEmptyBatches s))).dropLast, held batch ≠ []) ∧
      dropEmptyBatches (dropEmptyBatches s) = dropEmptyBatches s := by
  have own := ownLines_dropEmptyFrom false (pieces s)
  have kept : holdings (batches ([] ++ dropEmptyFrom false (pieces s))) =
      holdings (batches ([] ++ pieces s)) := holdings_dropEmptyFrom (List.forall_mem_nil _) rfl
  rw [List.nil_append, List.nil_append] at kept
  have closes := closes_dropEmptyFrom false (pieces s)
  rcases pieces_dropEmptyBatches s with same | ⟨noOwn, nothing, empty⟩
  · rw [same]
    refine ⟨congrArg joinLines own, fun _ => own, kept, fun batch member => ?_, ?_⟩
    · exact closes.held_ne_nil (List.forall_mem_nil _) rfl member
    · rw [dropEmptyBatches, same, closes.dropEmptyFrom_eq]
      rfl
  · rw [nothing] at kept
    rw [empty, noOwn]
    exact ⟨rfl, fun some => absurd rfl some, kept, List.forall_mem_nil _, rfl⟩

namespace Sample

/-- Separators of empty batches at the start, in a row behind a batch and behind blank lines. -/
def sparse : Text := "GO\n\nSELECT 1;\n go \nGO\n\t\nGo\nSELECT 2;\n\nGO\nGO\n".toList

end Sample

theorem dropEmptyBatches_keeps_sample :
    ownLines (pieces Sample.sparse) ≠ [] ∧
      ownLines (pieces (dropEmptyBatches Sample.sparse)) = ownLines (pieces Sample.sparse) ∧
      dropEmptyBatches Sample.sparse = "\nSELECT 1;\n go \n\t\nSELECT 2;\n\nGO\n".toList ∧
      holdings (batches (pieces Sample.sparse)) = [["SELECT 1;".toList], ["SELECT 2;".toList]] ∧
      ∀ batch ∈ (batches (pieces (dropEmptyBatches Sample.sparse))).dropLast, held batch ≠ [] := by
  have own : ownLines (pieces Sample.sparse) ≠ [] := by decide
  obtain ⟨-, same, -, ends, -⟩ := dropEmptyBatches_keeps Sample.sparse
  exact ⟨own, same own, by decide, by decide, ends⟩

end MigrationSquash.Script
