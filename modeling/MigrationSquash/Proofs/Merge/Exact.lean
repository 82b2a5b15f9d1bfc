import MigrationSquash.Proofs.Merge.Blocks
import MigrationSquash.Proofs.Region.Divided

/-!
# Exact merging

Where both procedures of the first migration can be told apart, merging writes exactly the
merged bodies into it.  Each body stays closed on its way out of its file and into its block,
so that neither body ends the procedure it is written into, and neither of them declares the
other procedure.
-/

set_option autoImplicit false

namespace MigrationSquash

open Code (Closed Silent Bounds Frame locate? extract extract? declares lineAt indentBlock)
open Text (joinLines Unbroken)

namespace Migration

/-- Whether the migration adds a body to the merged procedure. -/
def contributes (procedure : Procedure) (migration : Migration) : Bool :=
  !(extract procedure migration.source.lines).isEmpty

/-- The block that is made of a procedure of the migration. -/
def wrapped (procedure : Procedure) (migration : Migration) : Block :=
  .wrap migration.id (extract procedure migration.source.lines)

theorem block?_eq (procedure : Procedure) (migration : Migration) :
    migration.block? procedure =
      if migration.contributes procedure then some (migration.wrapped procedure) else none := by
  unfold block? contributes wrapped
  dsimp only
  cases (extract procedure migration.source.lines).isEmpty <;> rfl

end Migration

theorem blocks_aggregate (procedure : Procedure) (order : MergeOrder)
    (migrations : List Migration) :
    (aggregate procedure order migrations).blocks =
      ((order.arrange migrations).filter (·.contributes procedure)).map (·.wrapped procedure) := by
  rw [aggregate]
  induction order.arrange migrations with
  | nil => rfl
  | cons migration rest ih =>
      dsimp only at ih ⊢
      rw [List.filterMap_cons, List.filter_cons, migration.block?_eq, ih]
      cases migration.contributes procedure <;> rfl

theorem mem_arrange_iff {order : MergeOrder} {migration : Migration}
    {migrations : List Migration} :
    migration ∈ order.arrange migrations ↔ migration ∈ migrations := by
  cases order with
  | chronological => exact Iff.rfl
  | reverseChronological => exact List.mem_reverse

theorem mem_arrange {order : MergeOrder} {migration : Migration} {migrations : List Migration}
    (member : migration ∈ order.arrange migrations) : migration ∈ migrations :=
  mem_arrange_iff.1 member

theorem exists_of_mem_aggregate {procedure : Procedure} {order : MergeOrder}
    {migrations : List Migration} {block : Block}
    (member : block ∈ (aggregate procedure order migrations).blocks) :
    ∃ migration ∈ migrations, block = migration.wrapped procedure := by
  rw [blocks_aggregate] at member
  obtain ⟨migration, inside, rfl⟩ := List.mem_map.1 member
  exact ⟨migration, mem_arrange (List.mem_filter.1 inside).1, rfl⟩

/-- The blocks of a merged body are those of migrations that were merged. -/
theorem exists_of_mem_blocks {procedure : Procedure} {migrations : List Migration} {text : Text}
    (member : text ∈ (mergedProcedure procedure migrations).blocks.map (·.text)) :
    ∃ migration ∈ migrations, text = (migration.wrapped procedure).text := by
  obtain ⟨block, inside, rfl⟩ := List.mem_map.1 member
  obtain ⟨migration, given, rfl⟩ := exists_of_mem_aggregate inside
  exact ⟨migration, given, rfl⟩

/-- What holds of each block and of texts below each other holds of the merged body. -/
theorem mergedProcedure_induction {holds : Text → Prop} (nil : holds [])
    (append : ∀ s t, holds s → holds t → holds (s ++ '\n' :: t)) {procedure : Procedure}
    {migrations : List Migration}
    (wrapped : ∀ migration ∈ migrations, holds (migration.wrapped procedure).text) :
    holds (mergedProcedure procedure migrations).text := by
  apply Text.join_emptyLine_induction nil append
  intro text member
  obtain ⟨migration, given, rfl⟩ := exists_of_mem_blocks member
  exact wrapped migration given

/-- Migrations whose procedures can be told apart: in the first one each procedure is declared
before its brace and away from the other one, and nowhere does a line of one procedure match the
signature of the other one. -/
structure Separable (first : Migration) (rest : List Migration) : Prop where
  before : ∀ (procedure : Procedure) (bounds : Bounds),
    locate? procedure first.source.lines = some bounds →
      bounds.SignedBefore procedure first.source.lines
  apart : ∀ up down : Bounds, locate? .up first.source.lines = some up →
    locate? .down first.source.lines = some down → up.Apart down
  unsigned : ∀ migration ∈ first :: rest, ∀ procedure other : Procedure, procedure ≠ other →
    ∀ line ∈ Code.regionLines procedure migration.source.lines, other.isDeclaredIn line = false
  oneLineIds : ∀ migration ∈ first :: rest, '\n' ∉ migration.id.toText

/-- Lines as a file has them. -/
def Migration.OneLine (migration : Migration) : Prop :=
  ∀ line ∈ migration.source.lines, Unbroken line

/-- Migrations whose procedures can be merged into the first of them. -/
structure Mergeable (first : Migration) (rest : List Migration) : Prop
    extends Separable first rest where
  located : ∀ procedure : Procedure, (locate? procedure first.source.lines).isSome = true
  oneLine : ∀ migration ∈ first :: rest, migration.OneLine

namespace Separable

variable {first : Migration} {rest : List Migration} (separable : Separable first rest)
include separable

theorem divided : Code.Divided first.source.lines where
  before := separable.before
  apart := separable.apart
  unsigned := separable.unsigned first List.mem_cons_self

variable (oneLine : ∀ migration ∈ first :: rest, migration.OneLine)
include oneLine

theorem closed_merged (procedure : Procedure) :
    Closed (mergedProcedure procedure (first :: rest)).text :=
  mergedProcedure_induction .nil (fun _ _ => Closed.append_feed) fun migration member =>
    Block.closed_wrap (separable.oneLineIds migration member)
      (Code.closed_extract (oneLine migration member))

theorem silent_merged {procedure other : Procedure} (differ : procedure ≠ other) :
    Silent other (mergedProcedure procedure (first :: rest)).text :=
  mergedProcedure_induction .nil (fun _ _ => Silent.append_feed) fun migration member =>
    Block.silent_wrap (separable.oneLineIds migration member)
      (Code.silent_extract (oneLine migration member)
        (separable.unsigned migration member procedure other differ))

/-- The merged bodies stand in the procedures that the first migration has. -/
theorem fills_merged :
    Code.Fills first.source.lines
      (replaceMerged .down (first :: rest) (replaceMerged .up (first :: rest) first.source.lines))
      fun procedure => (mergedProcedure procedure (first :: rest)).text := by
  simp only [replaceMerged]
  exact separable.divided.fills (fun procedure => (mergedProcedure procedure (first :: rest)).text)
    (separable.closed_merged oneLine) fun _ _ differ => separable.silent_merged oneLine differ

end Separable

/-- Merging is exact: the merged bodies are found in the procedures they were written into, each
procedure has one block for each migration with a body, in the order in which the bodies have to
run, and the lines open as many more braces than they close as before. -/
theorem merge_is_exact {first : Migration} {rest : List Migration}
    (mergeable : Mergeable first rest) :
    let migrations := first :: rest
    let merged :=
      replaceMerged .down migrations (replaceMerged .up migrations first.source.lines)
    (∀ procedure : Procedure, ∃ bounds, locate? procedure first.source.lines = some bounds ∧
      (extract procedure merged).text = Text.trim (joinLines
        (indentBlock (mergedProcedure procedure migrations).text
          (Text.indentation (lineAt first.source.lines bounds.declaration) ++
            Text.indentStep)))) ∧
      (mergedProcedure .up migrations).blocks =
        (migrations.filter (·.contributes .up)).map (·.wrapped .up) ∧
      (mergedProcedure .down migrations).blocks =
        (migrations.reverse.filter (·.contributes .down)).map (·.wrapped .down) ∧
      Code.totalDelta merged = Code.totalDelta first.source.lines := by
  intro migrations merged
  have fills := mergeable.toSeparable.fills_merged mergeable.oneLine
  refine ⟨?_, blocks_aggregate .up .chronological migrations,
    blocks_aggregate .down .reverseChronological migrations, fills.delta⟩
  intro procedure
  obtain ⟨bounds, located⟩ := Option.isSome_iff_exists.1 (mergeable.located procedure)
  exact ⟨bounds, located, fills.text procedure bounds located⟩

namespace Sample

/-- A migration whose first body holds a brace that is data. -/
def oldest : Migration where
  id := ⟨"20240101000000".toList, "AddUsers".toList⟩
  source := {
    lines := [
      "class AddUsers \x7b".toList,
      "    void Up(Builder b)".toList,
      "    \x7b".toList,
      "        b.Sql(\"SELECT '\x7d'\");".toList,
      "    \x7d".toList,
      "    void Down(Builder b) \x7b b.DropTable(\"Users\"); \x7d".toList,
      "\x7d".toList]
    newline := .lineFeed
    marked := false }

/-- A migration whose first body holds a string over two lines. -/
def newest : Migration where
  id := ⟨"20240202000000".toList, "AddOrders".toList⟩
  source := {
    lines := [
      "class AddOrders \x7b".toList,
      "    void Down(Builder b) \x7b \x7d".toList,
      "    void Up(Builder b) \x7b b.Sql(@\"SELECT \"\"\x7b\"\"".toList,
      "  FROM Orders\"); \x7d".toList,
      "\x7d".toList]
    newline := .lineFeed
    marked := false }

theorem up_located : locate? .up oldest.source.lines = some ⟨1, ⟨2, 4⟩, ⟨4, 4⟩⟩ := by
  decide

theorem down_located : locate? .down oldest.source.lines = some ⟨5, ⟨5, 25⟩, ⟨5, 49⟩⟩ := by
  decide

theorem separable : Separable oldest [newest] where
  before procedure bounds located := by
    cases procedure with
    | up =>
        obtain rfl := Option.some.inj (up_located.symm.trans located)
        exact Or.inl (by decide)
    | down =>
        obtain rfl := Option.some.inj (down_located.symm.trans located)
        exact Or.inr ⟨4, 14, by decide, by decide⟩
  apart up down upLocated downLocated := by
    obtain rfl := Option.some.inj (up_located.symm.trans upLocated)
    obtain rfl := Option.some.inj (down_located.symm.trans downLocated)
    decide
  unsigned migration member procedure other differ := by
    have all : ∀ migration ∈ [oldest, newest],
        (∀ line ∈ Code.regionLines .up migration.source.lines,
          Procedure.isDeclaredIn .down line = false) ∧
        ∀ line ∈ Code.regionLines .down migration.source.lines,
          Procedure.isDeclaredIn .up line = false := by
      decide
    obtain ⟨up, down⟩ := all migration member
    cases procedure <;> cases other <;> first | exact absurd rfl differ | assumption
  oneLineIds := by decide

theorem mergeable : Mergeable oldest [newest] where
  toSeparable := separable
  located
    | .up => congrArg Option.isSome up_located
    | .down => congrArg Option.isSome down_located
  oneLine := by
    unfold Migration.OneLine Unbroken
    decide

end Sample

theorem merge_is_exact_sample :
    Mergeable Sample.oldest [Sample.newest] ∧
      ((mergedProcedure .down [Sample.oldest, Sample.newest]).blocks.map (·.source)) =
        [Sample.oldest.id] ∧
      Code.totalDelta (replaceMerged .down [Sample.oldest, Sample.newest]
        (replaceMerged .up [Sample.oldest, Sample.newest] Sample.oldest.source.lines)) = 0 := by
  obtain ⟨-, -, down, delta⟩ := merge_is_exact Sample.mergeable
  refine ⟨Sample.mergeable, ?_, ?_⟩
  · rw [down]
    decide
  · rw [delta]
    decide

end MigrationSquash
