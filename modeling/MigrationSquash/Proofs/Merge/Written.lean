import MigrationSquash.Proofs.Merge.Contents
import MigrationSquash.Proofs.Merge.Literals
import MigrationSquash.Proofs.Region.Characters

/-!
# Merged sources that are read back

The lines of a merged source are made of those of the migrations, of blocks and of imports.  None
of these brings in a line break or a mark at the start, so the merged source is read back as it
was written.  Main statement: what is read back holds a body exactly if its procedure was located
in the migration that all are merged into.
-/

set_option autoImplicit false

namespace MigrationSquash

open Text (Unmarked)

section Merged

variable {first : Migration} {rest : List Migration}

theorem mem_imports_mergedProcedure_iff {procedure : Procedure} {migrations : List Migration}
    {s : Text} :
    s ∈ (mergedProcedure procedure migrations).imports.items ↔
      ∃ migration ∈ migrations, s ∈ migration.imports.items := by
  have nothing : s ∉ Code.ImportSet.empty.items := List.not_mem_nil
  rw [mergedProcedure, aggregate, Code.ImportSet.mem_foldl_union, or_iff_right nothing]
  simp only [List.mem_map, mem_arrange_iff, exists_exists_and_eq_and]

theorem mem_imports_merged_iff {migrations : List Migration} {s : Text} :
    s ∈ ((mergedProcedure .up migrations).imports.union
        (mergedProcedure .down migrations).imports).items ↔
      ∃ migration ∈ migrations, s ∈ migration.imports.items := by
  rw [Code.ImportSet.mem_union, mem_imports_mergedProcedure_iff, mem_imports_mergedProcedure_iff,
    or_self]

theorem mem_imports_merged {migrations : List Migration} {s : Text}
    (member : s ∈ ((mergedProcedure .up migrations).imports.union
      (mergedProcedure .down migrations).imports).items) :
    ∃ migration ∈ migrations, ∃ line ∈ migration.source.lines,
      Code.isImport line = true ∧ s = Text.trim line := by
  obtain ⟨migration, given, inImports⟩ := mem_imports_merged_iff.1 member
  exact ⟨migration, given, Code.ImportSet.mem_ofLines.1 inImports⟩

theorem not_mem_replaceMerged {procedure : Procedure} {migrations : List Migration}
    (whole : ∀ migration ∈ migrations, migration.Whole) {c : Char} (breaks : c = '\n' ∨ c = '\r')
    {lines : List Text} (absent : ∀ line ∈ lines, c ∉ line) :
    ∀ line ∈ replaceMerged procedure migrations lines, c ∉ line := by
  have noMark : c ∉ ['{', '}', ' '] := by
    rcases breaks with rfl | rfl <;> decide
  apply Code.not_mem_replace noMark absent
  intro line inside
  rcases breaks with rfl | rfl
  · exact Text.unbroken_of_mem_lines inside
  · exact Text.not_mem_of_mem_lines (settled_merged whole).noReturn inside

theorem Migration.Whole.not_mem {migration : Migration} (whole : migration.Whole) {c : Char}
    (breaks : c = '\n' ∨ c = '\r') : ∀ line ∈ migration.source.lines, c ∉ line := by
  intro line inside
  rcases breaks with rfl | rfl
  · exact (whole.lines line inside).1
  · exact (whole.lines line inside).2

theorem not_mem_mergeInto (whole : ∀ migration ∈ first :: rest, migration.Whole) {c : Char}
    (breaks : c = '\n' ∨ c = '\r') :
    ∀ line ∈ mergeInto first.source.lines (first :: rest), c ∉ line := by
  have noBlank : c ≠ ' ' := by
    rcases breaks with rfl | rfl <;> decide
  apply Code.not_mem_placeImports noBlank
  · exact not_mem_replaceMerged whole breaks
      (not_mem_replaceMerged whole breaks ((whole first List.mem_cons_self).not_mem breaks))
  · intro item member inside
    obtain ⟨migration, given, line, inLines, -, rfl⟩ := mem_imports_merged member
    exact (whole migration given).not_mem breaks line inLines (Text.mem_of_mem_trim inside)

/-- The merged source is read back as it was written. -/
theorem faithful_merged (whole : ∀ migration ∈ first :: rest, migration.Whole)
    (unmarked : first.source.marked = false → Unmarked first.source.lines) :
    (first.source.withLines (mergeInto first.source.lines (first :: rest))).Faithful := by
  refine ⟨not_mem_mergeInto whole (Or.inl rfl), ?_, ?_⟩
  · intro _ line member ends
    exact not_mem_mergeInto whole (Or.inr rfl) line member (List.mem_of_getLast? ends)
  · intro noMark
    apply Code.unmarked_placeImports
    · exact Code.unmarked_replace _ (Code.unmarked_replace _ (unmarked noMark))
    · intro item member
      obtain ⟨migration, given, line, inLines, directive, rfl⟩ := mem_imports_merged member
      exact Code.startsPlain_of_isImport directive

end Merged

/-- Migrations that are merged as the merger is meant to: their procedures can be told apart, no
line holds a line break, and imports stay out of the procedures. -/
structure Orderly (first : Migration) (rest : List Migration) : Prop
    extends Separable first rest where
  whole : ∀ migration ∈ first :: rest, migration.Whole
  placed : Code.Placed
    (replaceMerged .down (first :: rest) (replaceMerged .up (first :: rest) first.source.lines))
    ((mergedProcedure .up (first :: rest)).imports.union
      (mergedProcedure .down (first :: rest)).imports)

namespace Orderly

variable {first : Migration} {rest : List Migration} {procedure : Procedure}

theorem oneLine (orderly : Orderly first rest) :
    ∀ migration ∈ first :: rest, migration.OneLine :=
  fun migration member line inside => ((orderly.whole migration member).lines line inside).1

theorem extract_emptyLine (procedure : Procedure) :
    (Code.extract procedure [[]]).text = (Code.extract procedure []).text := by
  cases procedure <;> decide

/-- What is read back of the merged source holds a body exactly if its procedure was located. -/
theorem standsIn_written_iff (orderly : Orderly first rest)
    (unmarked : first.source.marked = false → Unmarked first.source.lines) {written : Source}
    (read : Source.ofBytes? (first.source.withLines
      (mergeInto first.source.lines (first :: rest))).toBytes = some written)
    {migration : Migration} (member : migration ∈ first :: rest)
    (contributes : migration.contributes procedure = true) :
    (migration.wrapped procedure).StandsIn (Code.extract procedure written.lines).text ↔
      (Code.locate? procedure first.source.lines).isSome = true := by
  obtain ⟨same, found, lines⟩ :=
    Source.exists_ofBytes?_toBytes (faithful_merged orderly.whole unmarked)
  obtain rfl := Option.some.inj (found.symm.trans read)
  have text : (Code.extract procedure same.lines).text = (Code.extract procedure
      (mergeInto first.source.lines (first :: rest))).text := by
    rw [lines]
    change (Code.extract procedure (if mergeInto _ _ = [] then _ else mergeInto _ _)).text = _
    split
    case isTrue empty => rw [empty, extract_emptyLine]
    case isFalse => rfl
  rw [text, mergeInto, orderly.placed.extract_placeImports]
  exact orderly.toSeparable.standsIn_merged_iff orderly.oneLine member contributes

end Orderly

end MigrationSquash
