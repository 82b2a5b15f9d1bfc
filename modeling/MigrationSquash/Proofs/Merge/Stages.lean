import MigrationSquash.Proofs.Merge.Substance
import MigrationSquash.Proofs.Merge.Written
import MigrationSquash.Proofs.Region.Overwritten

/-!
# Merging in stages

Migrations may be merged one after the other: some of them first, and what came out of that with
the rest of them later.  Main statement: the bodies have the same substance as if all migrations
had been merged at once, and the body that reverts them still reverts the newest one first.
-/

set_option autoImplicit false

namespace MigrationSquash

open Code (Closed Silent Fills locate? extract bodyIndent indentBlock)
open Text (joinLines)

namespace Code

theorem isIndent_of_mem_bodyIndent (bounds : Bounds) (lines : List Text) :
    ∀ c ∈ bodyIndent bounds lines, Text.isIndent c = true := by
  intro c member
  rcases List.mem_append.1 member with inLine | inStep
  · exact List.mem_takeWhile_imp inLine
  · exact Text.isIndent_of_mem_indentStep c inStep

/-- Bodies that declare nothing declare nothing where they were written. -/
theorem Fills.silent {lines filled : List Text} {body : Procedure → Text}
    (fills : Fills lines filled body) {procedure other : Procedure}
    (silent : Silent other (body procedure)) : Silent other (extract procedure filled).text := by
  cases located : locate? procedure lines with
  | none =>
      rw [extract, extract?, fills.absent procedure located]
      exact .nil
  | some bounds =>
      have unbroken : Text.Unbroken (bodyIndent bounds lines) := fun member =>
        absurd (isIndent_of_mem_bodyIndent bounds lines _ member) (by decide)
      rw [fills.text procedure bounds located]
      exact (Silent.of_lines (unbroken_indentBlock unbroken _)
        (silent.indentBlock (allBlank_bodyIndent bounds lines))).trim

end Code

/-- The first migration with the merged bodies of all of them. -/
def Migration.merged (first : Migration) (rest : List Migration) : Migration where
  id := first.id
  source := first.source.withLines
    (replaceMerged .down (first :: rest) (replaceMerged .up (first :: rest) first.source.lines))

section Merged

variable {first : Migration} {rest early later : List Migration} {ids : List MigrationId}

theorem Migration.Whole.merged (whole : ∀ migration ∈ first :: rest, migration.Whole) :
    (first.merged rest).Whole := by
  have own := whole first List.mem_cons_self
  refine ⟨own.id, fun line member => ⟨?_, ?_⟩⟩
  · exact not_mem_replaceMerged whole (Or.inl rfl)
      (not_mem_replaceMerged whole (Or.inl rfl) (own.not_mem (Or.inl rfl))) line member
  · exact not_mem_replaceMerged whole (Or.inr rfl)
      (not_mem_replaceMerged whole (Or.inr rfl) (own.not_mem (Or.inr rfl))) line member

/-- Merged bodies have the substance of their migrations where they were written. -/
theorem substance_fills {migrations : List Migration}
    (whole : ∀ migration ∈ migrations, migration.Whole)
    (named : ∀ migration ∈ migrations, migration.id ∈ ids) {lines filled : List Text}
    (fills : Fills lines filled fun procedure => (mergedProcedure procedure migrations).text)
    {procedure : Procedure} (located : (locate? procedure lines).isSome = true) :
    let bodies := (procedure.mergeOrder.arrange migrations).flatMap (·.substance ids procedure)
    substance ids (extract procedure filled).text = bodies ∧
      trimmedSubstance ids (extract procedure filled).text = bodies := by
  obtain ⟨bounds, found⟩ := Option.isSome_iff_exists.1 located
  obtain ⟨written, trimmed⟩ := substance_trim_merged whole ids procedure
    (Code.isIndent_of_mem_bodyIndent bounds lines)
  intro bodies
  rw [fills.text procedure bounds found, written, trimmed, trimmedSubstance_merged whole named]
  exact ⟨rfl, rfl⟩

theorem mem_of_mem_early {migration : Migration} (member : migration ∈ first :: early) :
    migration ∈ first :: (early ++ later) :=
  List.cons_subset_cons first (List.subset_append_left early later) member

theorem mem_of_mem_later {migration : Migration} (member : migration ∈ later) :
    migration ∈ first :: (early ++ later) :=
  List.mem_cons_of_mem _ (List.mem_append_right early member)

namespace Separable

theorem of_append (separable : Separable first (early ++ later)) : Separable first early where
  before := separable.before
  apart := separable.apart
  unsigned migration member := separable.unsigned migration (mem_of_mem_early member)
  oneLineIds migration member := separable.oneLineIds migration (mem_of_mem_early member)

variable (separable : Separable first (early ++ later))
  (oneLine : ∀ migration ∈ first :: (early ++ later), migration.OneLine)
include separable oneLine

/-- The bodies of the second stage do not declare each other's procedure either: what the first
stage wrote does not, and the comments that it wrote are not read. -/
theorem silent_staged {procedure other : Procedure} (differ : procedure ≠ other) :
    Silent other (mergedProcedure procedure (first.merged early :: later)).text := by
  have oneLineEarly : ∀ migration ∈ first :: early, migration.OneLine :=
    fun migration member => oneLine migration (mem_of_mem_early member)
  refine mergedProcedure_induction .nil (fun _ _ => Silent.append_feed) fun migration member => ?_
  rcases List.mem_cons.1 member with rfl | inLater
  · exact Block.silent_wrap (separable.oneLineIds first List.mem_cons_self)
      ((separable.of_append.fills_merged oneLineEarly).silent
        (separable.of_append.silent_merged oneLineEarly differ))
  · have given : migration ∈ first :: (early ++ later) := mem_of_mem_later inLater
    exact Block.silent_wrap (separable.oneLineIds migration given)
      (Code.silent_extract (oneLine migration given)
        (separable.unsigned migration given procedure other differ))

end Separable

/-- Items give way to one that stands for them, in whichever order they are taken. -/
theorem MergeOrder.flatMap_arrange_cons {α β : Type} (order : MergeOrder) {f : α → List β}
    {item : α} {items more : List α} (same : f item = (order.arrange items).flatMap f) :
    (order.arrange (item :: more)).flatMap f = (order.arrange (items ++ more)).flatMap f := by
  cases order with
  | chronological =>
      simp only [arrange, List.flatMap_cons, List.flatMap_append] at same ⊢
      rw [same]
  | reverseChronological =>
      simp only [arrange, List.reverse_cons, List.reverse_append, List.flatMap_append,
        List.flatMap_singleton] at same ⊢
      rw [same]

theorem whole_staged (whole : ∀ migration ∈ first :: (early ++ later), migration.Whole) :
    ∀ migration ∈ first.merged early :: later, migration.Whole := by
  refine List.forall_mem_cons.2 ⟨.merged fun migration member => ?_, fun migration member => ?_⟩
  · exact whole migration (mem_of_mem_early member)
  · exact whole migration (mem_of_mem_later member)

namespace Mergeable

variable (mergeable : Mergeable first (early ++ later))
include mergeable

theorem of_append : Mergeable first early where
  toSeparable := mergeable.toSeparable.of_append
  located := mergeable.located
  oneLine migration member := mergeable.oneLine migration (mem_of_mem_early member)

variable (whole : ∀ migration ∈ first :: (early ++ later), migration.Whole)
include whole

/-- What the first stage wrote is written over by the second one. -/
theorem lines_staged :
    ((first.merged early).merged later).source.lines =
      replaceMerged .down (first.merged early :: later)
        (replaceMerged .up (first.merged early :: later) first.source.lines) := by
  have separable := mergeable.toSeparable
  have wholeStaged := whole_staged whole
  exact separable.divided.replace_again mergeable.located
    (fun procedure => (mergedProcedure procedure (first :: early)).text)
    (fun procedure => (mergedProcedure procedure (first.merged early :: later)).text)
    (separable.of_append.closed_merged mergeable.of_append.oneLine)
    (fun _ _ => separable.of_append.silent_merged mergeable.of_append.oneLine)
    (fun _ => (settled_merged wholeStaged).closed)
    (fun _ _ => separable.silent_staged mergeable.oneLine)

theorem fills_staged :
    Fills first.source.lines ((first.merged early).merged later).source.lines fun procedure =>
      (mergedProcedure procedure (first.merged early :: later)).text := by
  rw [mergeable.lines_staged whole]
  exact mergeable.divided.fills
    (fun procedure => (mergedProcedure procedure (first.merged early :: later)).text)
    (fun _ => (settled_merged (whole_staged whole)).closed)
    fun _ _ => mergeable.toSeparable.silent_staged mergeable.oneLine

theorem substance_staged (named : ∀ migration ∈ first :: (early ++ later), migration.id ∈ ids)
    (procedure : Procedure) :
    substance ids (extract procedure ((first.merged early).merged later).source.lines).text =
      (procedure.mergeOrder.arrange (first :: (early ++ later))).flatMap
        (·.substance ids procedure) := by
  have located := mergeable.located procedure
  have namedStaged : ∀ migration ∈ first.merged early :: later, migration.id ∈ ids :=
    List.forall_mem_cons.2 ⟨named first List.mem_cons_self, fun migration member =>
      named migration (mem_of_mem_later member)⟩
  obtain ⟨-, firstStage⟩ := substance_fills
    (fun migration member => whole migration (mem_of_mem_early member))
    (fun migration member => named migration (mem_of_mem_early member))
    (mergeable.of_append.fills_merged mergeable.of_append.oneLine) located
  obtain ⟨secondStage, -⟩ := substance_fills (whole_staged whole) namedStaged
    (mergeable.fills_staged whole) located
  rw [secondStage, ← List.cons_append]
  exact procedure.mergeOrder.flatMap_arrange_cons firstStage

end Mergeable

/-- Merging in stages gives the bodies of both procedures the substance that merging at once gives
them: that of the given bodies, oldest first in the one and newest first in the other. -/
theorem merge_in_stages (mergeable : Mergeable first (early ++ later))
    (whole : ∀ migration ∈ first :: (early ++ later), migration.Whole) :
    let migrations := first :: (early ++ later)
    let ids := migrations.map (·.id)
    let staged := (first.merged early).merged later
    (∀ procedure : Procedure,
      substance ids (extract procedure staged.source.lines).text =
        substance ids (extract procedure (first.merged (early ++ later)).source.lines).text) ∧
      substance ids (extract .up staged.source.lines).text =
        migrations.flatMap (·.substance ids .up) ∧
      substance ids (extract .down staged.source.lines).text =
        migrations.reverse.flatMap (·.substance ids .down) := by
  intro migrations ids staged
  have named : ∀ migration ∈ migrations, migration.id ∈ ids :=
    fun migration member => List.mem_map_of_mem member
  have bodies := mergeable.substance_staged whole named
  refine ⟨fun procedure => ?_, bodies .up, bodies .down⟩
  obtain ⟨atOnce, -⟩ := substance_fills whole named (mergeable.fills_merged mergeable.oneLine)
    (mergeable.located procedure)
  exact (bodies procedure).trans atOnce.symm

end Merged

namespace Sample

/-- A migration with a body in both procedures. -/
def latest : Migration where
  id := ⟨"20240404000000".toList, "AddIndex".toList⟩
  source := {
    lines := [
      "class AddIndex \x7b".toList,
      "    void Up(Builder b)".toList,
      "    \x7b".toList,
      "        if (b.IsNew)".toList,
      "        \x7b".toList,
      "            b.CreateIndex(\"Ix\");".toList,
      "        \x7d".toList,
      "    \x7d".toList,
      "    void Down(Builder b) \x7b b.DropIndex(\"Ix\"); \x7d".toList,
      "\x7d".toList]
    newline := .lineFeed
    marked := false }

theorem mergeable_staged : Mergeable oldest ([newest] ++ [latest]) where
  before := separable.before
  apart := separable.apart
  unsigned migration member procedure other differ := by
    rw [List.singleton_append] at member
    by_cases last : migration = latest
    · have unsigned : (∀ line ∈ Code.regionLines .up latest.source.lines,
          Procedure.isDeclaredIn .down line = false) ∧
          ∀ line ∈ Code.regionLines .down latest.source.lines,
            Procedure.isDeclaredIn .up line = false := by
        decide
      rw [last]
      cases procedure with
      | up =>
          cases other with
          | up => exact absurd rfl differ
          | down => exact unsigned.1
      | down =>
          cases other with
          | up => exact unsigned.2
          | down => exact absurd rfl differ
    · refine separable.unsigned migration ?_ procedure other differ
      simpa [last] using member
  oneLineIds := by decide
  located := mergeable.located
  oneLine := by
    unfold Migration.OneLine Text.Unbroken
    decide

end Sample

theorem merge_in_stages_sample :
    Mergeable Sample.oldest ([Sample.newest] ++ [Sample.latest]) ∧
      (∀ migration ∈ Sample.oldest :: ([Sample.newest] ++ [Sample.latest]), migration.Whole) ∧
      let ids := (Sample.oldest :: ([Sample.newest] ++ [Sample.latest])).map (·.id)
      let staged := (Sample.oldest.merged [Sample.newest]).merged [Sample.latest]
      substance ids (extract .up staged.source.lines).text =
          [(.code, "b.Sql(\"SELECT '\x7d'\");".toList),
            (.code, "b.Sql(@\"SELECT \"\"\x7b\"\"".toList),
            (.verbatim, "  FROM Orders\");".toList),
            (.code, "if (b.IsNew)".toList),
            (.code, "b.CreateIndex(\"Ix\");".toList)] ∧
        substance ids (extract .down staged.source.lines).text =
          [(.code, "b.DropIndex(\"Ix\");".toList), (.code, "b.DropTable(\"Users\");".toList)] := by
  have whole : ∀ migration ∈ Sample.oldest :: ([Sample.newest] ++ [Sample.latest]),
      migration.Whole := by
    have breaks : ∀ migration ∈ Sample.oldest :: ([Sample.newest] ++ [Sample.latest]),
        ('\n' ∉ migration.id.toText ∧ '\r' ∉ migration.id.toText) ∧
          ∀ line ∈ migration.source.lines, '\n' ∉ line ∧ '\r' ∉ line := by
      decide
    exact fun migration member => ⟨(breaks migration member).1, (breaks migration member).2⟩
  obtain ⟨-, up, down⟩ := merge_in_stages Sample.mergeable_staged whole
  refine ⟨Sample.mergeable_staged, whole, up.trans ?_, down.trans ?_⟩
  · decide
  · decide

end MigrationSquash
