import MigrationSquash.Proofs.Merge.Contents
import MigrationSquash.Proofs.Scan.ClosedLines

/-!
# Sealed blocks

Nothing that a body holds reaches out of the block that is made of it: scanned from its first line
in code, the block is opened by the brace on that line, left with the brace on its last line and
not before, and nothing is open behind it.  So the blocks of a merged body are scanned below each
other as each of them is scanned alone.
-/

set_option autoImplicit false

namespace MigrationSquash

namespace Code

open Text (Ended)

/-- Lines that are one block: the first one opens it, the last one is the brace that closes it, and
at every brace in between the depth is at least one. -/
structure Sealed (lines : List Text) : Prop where
  opens : (scanLines .code lines).head? = some ⟨[⟨0, .opening⟩], .code⟩
  within : ∀ front back,
    ((scanLines .code lines).flatMap fun scan => scan.braces.map (·.kind)) = front ++ back →
      front ≠ [] → back ≠ [] → 1 ≤ BraceKind.balance front
  brace : lines.getLast? = some ['}']
  closes : (scanLines .code lines).getLast? = some ⟨[⟨0, .closing⟩], .code⟩
  level : totalDelta lines = 0

theorem scanLines_append (carry : Carry) (front back : List Text) :
    scanLines carry (front ++ back) =
      scanLines carry front ++ scanLines (carry.mode.runLines front).carry back := by
  induction front generalizing carry with
  | nil => cases carry <;> rfl
  | cons line rest ih =>
      rw [List.cons_append, scanLines, scanLines, ih, scanLine_eq_scan, Mode.runLines_cons]
      rfl

/-- Inside of a block that is closed behind its last brace it is never left. -/
theorem Balanced.one_le_balance {kinds front back : List BraceKind} (balanced : Balanced kinds)
    (cut : .opening :: kinds ++ [.closing] = front ++ back) (begun : front ≠ [])
    (unfinished : back ≠ []) : 1 ≤ BraceKind.balance front := by
  obtain ⟨first, others, rfl⟩ := List.exists_cons_of_ne_nil begun
  obtain ⟨between, last, rfl⟩ := (List.eq_nil_or_concat' back).resolve_left unfinished
  obtain ⟨rfl, rest⟩ := List.cons.inj cut
  obtain ⟨rfl, -⟩ := List.append_inj' (rest.trans (List.append_assoc _ _ _).symm) rfl
  have inside : 0 ≤ BraceKind.balance others := balanced.prefix_nonneg
  rw [BraceKind.balance, BraceKind.delta]
  omega

theorem Sealed.of_balanced {inner : List Text} (balanced : Balanced (Mode.code.kindsOfLines inner))
    (ends : Mode.code.runLines inner = .code) : Sealed (['{'] :: inner ++ [['}']]) := by
  have opened : (Mode.code.run ['{']).carry.mode = .code := rfl
  have front : (Mode.code.runLines (['{'] :: inner)).carry = .code := by
    rw [Mode.runLines_cons, opened, ends]
    rfl
  have kinds : Mode.code.kindsOfLines (['{'] :: inner ++ [['}']]) =
      .opening :: Mode.code.kindsOfLines inner ++ [.closing] := by
    rw [List.cons_append, Mode.kindsOfLines_cons, Mode.kindsOfLines_append, opened, ends]
    rfl
  constructor
  · rfl
  · intro front back cut
    rw [kinds_scanLines] at cut
    exact balanced.one_le_balance (kinds.symm.trans cut)
  · exact List.getLast?_concat
  · have last : scanLines .code [['}']] = [⟨[⟨0, .closing⟩], .code⟩] := by decide
    rw [scanLines_append]
    change (_ ++ scanLines (Mode.code.runLines (['{'] :: inner)).carry [['}']]).getLast? = _
    rw [front, last, List.getLast?_concat]
  · have whole : Balanced (Mode.code.kindsOfLines (['{'] :: inner ++ [['}']])) :=
      kinds ▸ balanced.block
    rw [totalDelta_eq]
    exact whole.balance

/-- Texts below each other are scanned as each of them is scanned alone. -/
theorem scanLines_join {texts : List Text} (all : ∀ s ∈ texts, Closed s ∧ Ended s) :
    scanLines .code (Text.lines (Text.join ['\n', '\n'] texts)) =
      List.intercalate [⟨[], .code⟩] (texts.map fun s => scanLines .code (Text.lines s)) := by
  induction texts with
  | nil => rfl
  | cons first rest ih =>
      cases rest with
      | nil => simp [Text.join]
      | cons next others =>
          obtain ⟨closed, ended⟩ := all first List.mem_cons_self
          have later := ih fun s member => all s (List.mem_cons_of_mem _ member)
          have carried : (Mode.code.runLines (Text.lines first)).carry = .code :=
            (Mode.code.kindsOfLines_lines first).2.trans closed.ends
          have joined : Text.lines (Text.join ['\n', '\n'] (first :: next :: others)) =
              Text.lines first ++ [] :: Text.lines (Text.join ['\n', '\n'] (next :: others)) := by
            have feed : Text.lines ('\n' :: Text.join ['\n', '\n'] (next :: others)) =
                [] :: Text.lines (Text.join ['\n', '\n'] (next :: others)) := rfl
            rw [← feed, ← ended]
            simp [Text.join]
          have separate : scanLine [] .code = ⟨[], .code⟩ := rfl
          rw [joined, scanLines_append]
          change _ ++ scanLines (Mode.code.runLines (Text.lines first)).carry _ = _
          rw [carried, scanLines, separate, later]
          simp [List.intercalate]

end Code

theorem Block.sealed_wrap {id : MigrationId} {region : Code.Region} (oneLine : '\n' ∉ id.toText)
    (closed : Code.Closed region.text) : Code.Sealed (Text.lines (wrap id region).text) := by
  obtain ⟨balanced, ends⟩ := balanced_inner id closed
  obtain ⟨kinds, carries⟩ := Code.Mode.code.lines_dropReturn
    ((Text.indentStep ++ provenance id) :: bodyLines region)
  have front : ∀ line ∈ ['{'] :: (Text.indentStep ++ provenance id) :: bodyLines region,
      Text.Unbroken line := fun line member =>
    unbroken_lines oneLine line (List.mem_append_left _ member)
  rw [text_wrap, lines, Text.lines_joinLines_append _ _ front, List.map_cons]
  exact .of_balanced (kinds ▸ balanced) (carries.trans ends)

section Aggregate

variable {migrations : List Migration}

/-- Every block of a merged body is sealed, so that between two of them the scan is in code and
each is scanned in the body as it is scanned alone. -/
theorem blocks_sealed (procedure : Procedure) (order : MergeOrder)
    (oneLineIds : ∀ migration ∈ migrations, '\n' ∉ migration.id.toText)
    (oneLine : ∀ migration ∈ migrations, migration.OneLine) :
    (∀ block ∈ (aggregate procedure order migrations).blocks,
        Code.Sealed (Text.lines block.text)) ∧
      Code.scanLines .code (Text.lines (aggregate procedure order migrations).text) =
        List.intercalate [⟨[], .code⟩] ((aggregate procedure order migrations).blocks.map
          fun block => Code.scanLines .code (Text.lines block.text)) := by
  have closed : ∀ migration ∈ migrations,
      Code.Closed (Code.extract procedure migration.source.lines).text :=
    fun migration given => Code.closed_extract (oneLine migration given)
  constructor
  · intro block member
    obtain ⟨migration, given, rfl⟩ := exists_of_mem_aggregate member
    exact Block.sealed_wrap (oneLineIds migration given) (closed migration given)
  · rw [Aggregate.text, Code.scanLines_join, List.map_map]
    · rfl
    · intro text member
      obtain ⟨block, inside, rfl⟩ := List.mem_map.1 member
      obtain ⟨migration, given, rfl⟩ := exists_of_mem_aggregate inside
      exact ⟨Block.closed_wrap (oneLineIds migration given) (closed migration given),
        Block.ended_wrap (oneLineIds migration given)⟩

theorem blocks_sealed_sample :
    (aggregate .up .reverseChronological [Sample.oldest, Sample.newest]).blocks.map (·.source) =
        [Sample.newest.id, Sample.oldest.id] ∧
      ∀ block ∈ (aggregate .up .reverseChronological [Sample.oldest, Sample.newest]).blocks,
        Code.Sealed (Text.lines block.text) := by
  refine ⟨by decide, ?_⟩
  exact (blocks_sealed .up .reverseChronological Sample.mergeable.oneLineIds
    Sample.mergeable.oneLine).1

end Aggregate

end MigrationSquash
