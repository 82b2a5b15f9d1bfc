import MigrationSquash.Proofs.Merge.Written
import MigrationSquash.Proofs.Run.Primary

/-!
# Bodies that a squash keeps

After a squash that converts nothing the primary file holds the merged source, whatever became of
the other files.  So a body is still on disk exactly if the oldest migration held the procedure it
belongs to; where it did not, the file of the body is removed and the body is nowhere.
-/

set_option autoImplicit false

namespace MigrationSquash

open Code (extract locate?)
open FileTree (Hosts)
open MigrationFile (sourceName)

variable {scripts : ScriptSource} {options : SquashOptions} {before after : World}
  {report : SquashReport}

namespace Squash

/-- What a squash that reports a conversion or none leaves in the oldest migration, which was the
first of those it was asked to merge. -/
theorem exists_read_primary {first : Migration} {rest : List Migration}
    (reads : ∀ request tree, (scripts request tree).2 = tree) (sound : before.tree.Sound)
    (unlinked : ∀ entry ∈ before.tree.entries options.directory, ∀ target, entry.2 ≠ .link target)
    (given : migrations options before.tree = first :: rest)
    (ran : squash scripts options before = (.ok (.squashed report), after)) :
    let merged := mergeInto first.source.lines (first :: rest)
    let range := ScriptRange.ofListing (Directory.migrations before.tree options.directory) first.id
      (rest.getLast?.getD first).id
    before.tree.source? report.primary = some first.source ∧ ∃ lines,
      after.tree.read report.primary = .ok (first.source.withLines lines).toBytes ∧
      (report.conversion ≠ .converted → lines = merged) ∧
      (report.conversion = .converted → ∃ tree sql,
        Conversion.Generates scripts options.settings range tree sql ∧
          lines = Conversion.replaceBoth merged (sql .up) (sql .down)) := by
  intro merged range
  obtain ⟨batch, loaded, course⟩ := squash_eq_ok ran
  obtain ⟨place, hosts, entries⟩ := sound.exists_hosts loaded.opened unlinked
  exact course.read_primary reads sound hosts.leads entries loaded given

end Squash

/-- A body is on disk after a squash that converts nothing exactly if the oldest migration held the
procedure that the body belongs to. -/
theorem kept_iff_located {first : Migration} {rest : List Migration}
    (reads : ∀ request tree, (scripts request tree).2 = tree) (sound : before.tree.Sound)
    (unlinked : ∀ entry ∈ before.tree.entries options.directory, ∀ target, entry.2 ≠ .link target)
    (given : Squash.migrations options before.tree = first :: rest)
    (orderly : Orderly first rest)
    (ran : squash scripts options before = (.ok (.squashed report), after))
    (notConverted : report.conversion ≠ .converted) :
    ∃ written, after.tree.source? report.primary = some written ∧
      ∀ procedure : Procedure, ∀ migration ∈ first :: rest,
        migration.contributes procedure = true →
          ((migration.wrapped procedure).StandsIn (extract procedure written.lines).text ↔
            (locate? procedure first.source.lines).isSome = true) := by
  obtain ⟨read, lines, content, merged, -⟩ :=
    Squash.exists_read_primary reads sound unlinked given ran
  rw [merged notConverted] at content
  have unmarked : first.source.marked = false → Text.Unmarked first.source.lines := by
    cases bytes : before.tree.read report.primary with
    | error error =>
        rw [FileTree.source?, bytes] at read
        cases read
    | ok bytes' =>
        rw [FileTree.source?, bytes] at read
        exact (Source.ofBytes?_spec read).2
  obtain ⟨written, decoded, -⟩ :=
    Source.exists_ofBytes?_toBytes (faithful_merged orderly.whole unmarked)
  refine ⟨written, ?_, ?_⟩
  · rw [FileTree.source?, content]
    exact decoded
  · intro procedure migration member contributes
    exact orderly.standsIn_written_iff unmarked decoded member contributes

namespace Sample

/-- A migration that cannot be reverted. -/
def oneWay : Migration where
  id := ⟨"20240101000000".toList, "Users".toList⟩
  source := {
    lines := [
      "class Users \x7b".toList,
      "    void Up(M m) \x7b m.Run(); \x7d".toList,
      "    void Down(M m) => throw null;".toList,
      "\x7d".toList]
    newline := .lineFeed
    marked := false }

/-- A migration that can be reverted. -/
def bothWays : Migration where
  id := ⟨"20240202000000".toList, "Orders".toList⟩
  source := {
    lines := [
      "class Orders \x7b".toList,
      "    void Up(M m) \x7b m.Open(); \x7d".toList,
      "    void Down(M m) \x7b m.Close(); \x7d".toList,
      "\x7d".toList]
    newline := .lineFeed
    marked := false }

def directory : Text := "Migrations".toList

def fileOf (migration : Migration) : MigrationFile :=
  ⟨migration.id, Path.join directory (sourceName migration.id), none⟩

def entryOf (migration : Migration) (source : Source) : Place × Node :=
  ([directory, sourceName migration.id], .file source.toBytes false)

/-- A directory with both migrations. -/
def full : World :=
  .ofTree ⟨[([directory], .directory), entryOf oneWay oneWay.source,
    entryOf bothWays bothWays.source], []⟩

def everything : SquashOptions where
  directory := directory
  selection := ⟨none, none⟩
  skipConversion := false
  settings := ⟨none, "__EFMigrationsHistory".toList, false⟩

def noScripts : ScriptSource := fun _ tree => (.error (.refused []), tree)

/-- The older migration with both bodies in the procedure that it has. -/
def merged : Source :=
  oneWay.source.withLines [
    "class Users \x7b".toList,
    "    void Up(M m) \x7b".toList,
    "        \x7b".toList,
    "            // Squashed from 20240101000000_Users".toList,
    "            m.Run();".toList,
    "        \x7d".toList,
    [],
    "        \x7b".toList,
    "            // Squashed from 20240202000000_Orders".toList,
    "            m.Open();".toList,
    "        \x7d".toList,
    "    \x7d".toList,
    "    void Down(M m) => throw null;".toList,
    "\x7d".toList]

/-- The directory without the newer migration. -/
def squashed : World where
  tree := ⟨[entryOf oneWay merged, ([directory], .directory)], []⟩
  output := []
  warnings := ["Warning: No designer file found for 20240101000000_Users".toList]
  requests := []

def outcome : SquashReport where
  primary := (fileOf oneWay).path
  designer := none
  squashed := [oneWay.id, bothWays.id]
  removed := [(fileOf bothWays).path]
  hazards := []
  conversion := .notNeeded

theorem entries_full : full.tree.entries directory =
    [(sourceName oneWay.id, .file oneWay.source.toBytes false),
      (sourceName bothWays.id, .file bothWays.source.toBytes false)] := by
  have resolved : full.tree.resolve directory = .ok [directory] := by rfl
  have opened : full.tree.node? [directory] = some .directory := by rfl
  rw [FileTree.entries, resolved]
  exact (if_pos opened).trans (List.mergeSort_of_pairwise (by decide))

theorem migrations_full :
    Directory.migrations full.tree directory = [fileOf oneWay, fileOf bothWays] := by
  rw [Directory.migrations, entries_full]
  decide

theorem given_full : Squash.migrations everything full.tree = [oneWay, bothWays] := by
  have selected : Squash.selected everything full.tree = [fileOf oneWay, fileOf bothWays] := by
    rw [Squash.selected]
    exact (congrArg everything.selection.select migrations_full).trans (by decide)
  rw [Squash.migrations, selected]
  decide

theorem squash_full : squash noScripts everything full = (.ok (.squashed outcome), squashed) := by
  refine Run.bind_eq_ok_iff.2 ⟨(), full, rfl, Run.bind_eq_ok_iff.2
    ⟨_, _, Directory.list_eq (by rfl) migrations_full, ?_⟩⟩
  decide +kernel

theorem sound_full : full.tree.Sound where
  nested := FileTree.nested_of_entries (by decide)
  distinct := by decide
  noSlash := by decide

theorem up_located_oneWay : locate? .up oneWay.source.lines = some ⟨1, ⟨1, 17⟩, ⟨1, 28⟩⟩ := by
  decide

theorem down_absent_oneWay : locate? .down oneWay.source.lines = none := by
  decide

theorem separable_oneWay : Separable oneWay [bothWays] where
  before procedure bounds located := by
    cases procedure with
    | up =>
        obtain rfl := Option.some.inj (up_located_oneWay.symm.trans located)
        exact Or.inr ⟨4, 12, by decide, by decide⟩
    | down =>
        rw [down_absent_oneWay] at located
        cases located
  apart up down _ downLocated := by
    rw [down_absent_oneWay] at downLocated
    cases downLocated
  unsigned migration member procedure other differ := by
    have all : ∀ migration ∈ [oneWay, bothWays],
        (∀ line ∈ Code.regionLines .up migration.source.lines,
          Procedure.isDeclaredIn .down line = false) ∧
        ∀ line ∈ Code.regionLines .down migration.source.lines,
          Procedure.isDeclaredIn .up line = false := by
      decide
    obtain ⟨up, down⟩ := all migration member
    cases procedure <;> cases other <;> first | exact absurd rfl differ | assumption
  oneLineIds := by decide

theorem orderly_oneWay : Orderly oneWay [bothWays] where
  toSeparable := separable_oneWay
  whole migration member := by
    have breaks : ∀ migration ∈ [oneWay, bothWays],
        ('\n' ∉ migration.id.toText ∧ '\r' ∉ migration.id.toText) ∧
          ∀ line ∈ migration.source.lines, '\n' ∉ line ∧ '\r' ∉ line := by
      decide
    exact ⟨(breaks migration member).1, (breaks migration member).2⟩
  placed := by
    have lines : replaceMerged .down [oneWay, bothWays]
        (replaceMerged .up [oneWay, bothWays] oneWay.source.lines) = merged.lines := by
      decide
    rw [lines]
    exact {
      starts := by decide
      above := fun _ _ _ => Nat.zero_le _
      replaced := by decide
      written := by decide }

end Sample

/-- Of a migration that is merged into one without a `Down` block only the `Up` block is kept. -/
theorem kept_iff_located_sample :
    ∃ written, Sample.squashed.tree.source? Sample.outcome.primary = some written ∧
      (Sample.bothWays.wrapped .up).StandsIn (extract .up written.lines).text ∧
      ¬ (Sample.bothWays.wrapped .down).StandsIn (extract .down written.lines).text := by
  have unlinked : ∀ entry ∈ Sample.full.tree.entries Sample.everything.directory, ∀ target,
      entry.2 ≠ .link target := by
    change ∀ entry ∈ Sample.full.tree.entries Sample.directory, _
    rw [Sample.entries_full]
    intro entry member target
    rcases List.mem_cons.1 member with rfl | later
    · exact Node.noConfusion
    · obtain rfl := List.mem_singleton.1 later
      exact Node.noConfusion
  obtain ⟨written, read, kept⟩ := kept_iff_located (fun _ _ => rfl) Sample.sound_full unlinked
    Sample.given_full Sample.orderly_oneWay Sample.squash_full (by decide)
  refine ⟨written, read, ?_, ?_⟩
  · apply (kept .up Sample.bothWays (by simp) (by decide)).2
    rw [Sample.up_located_oneWay]
    rfl
  · intro stands
    have located := (kept .down Sample.bothWays (by simp) (by decide)).1 stands
    rw [Sample.down_absent_oneWay] at located
    cases located

/-- A squash removes a file and the body in it if the oldest migration has no block for it. -/
theorem body_of_removed_file_lost :
    squash Sample.noScripts Sample.everything Sample.full =
        (.ok (.squashed Sample.outcome), Sample.squashed) ∧
      Sample.outcome.conversion ≠ .converted ∧
      Sample.full.tree.source? (Sample.fileOf Sample.bothWays).path =
        some Sample.bothWays.source ∧
      (extract .down Sample.bothWays.source.lines).text = "m.Close();".toList ∧
      Sample.squashed.tree.source? (Sample.fileOf Sample.bothWays).path = none ∧
      Sample.squashed.tree.source? Sample.outcome.primary = some Sample.merged ∧
      ¬ (Sample.bothWays.wrapped .down).StandsIn (extract .down Sample.merged.lines).text := by
  have nothing : (extract .down Sample.merged.lines).text = [] := by decide
  refine ⟨Sample.squash_full, by decide, by decide, by decide, by decide,
    by decide +kernel, ?_⟩
  rw [nothing]
  exact Block.not_standsIn_nil

end MigrationSquash
