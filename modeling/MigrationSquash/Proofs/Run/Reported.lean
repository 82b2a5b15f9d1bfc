import MigrationSquash.Proofs.Run.Course

/-!
# Hazards that a squash reports

A squash reports the hazards of the merged source, and it is they alone that make it convert: the
report says that no conversion was needed exactly if it names no hazard.
-/

set_option autoImplicit false

namespace MigrationSquash

variable {scripts : ScriptSource} {world after : World}

namespace Conversion

/-- A migration that is to be converted is never reported as one that needs no conversion. -/
theorem ne_notNeeded_of_convert {settings : Settings} {migration : StoredMigration}
    {range : ScriptRange} {lines : List Text} {conversion : Conversion}
    (ran : convert scripts settings migration range lines world = (.ok conversion, after)) :
    conversion ≠ .notNeeded := by
  have kept {id : MigrationId} {failure : Failure} {start : World}
      (keeping : keep id failure start = (.ok conversion, after)) : conversion ≠ .notNeeded := by
    obtain ⟨_, _, -, made⟩ := Run.bind_eq_ok_iff.1 keeping
    obtain ⟨rfl, -⟩ := Run.pure_eq_ok_iff.1 made
    exact nofun
  obtain ⟨project, _, -, ran⟩ := Run.bind_eq_ok_iff.1 ran
  cases project with
  | error failure => exact kept ran
  | ok project =>
      obtain ⟨_, _, -, ran⟩ := Run.bind_eq_ok_iff.1 ran
      obtain ⟨answer, _, -, ran⟩ := Run.bind_eq_ok_iff.1 ran
      cases answer with
      | error failure => exact kept ran
      | ok newLines =>
          obtain ⟨_, _, -, ran⟩ := Run.bind_eq_ok_iff.1 ran
          obtain ⟨_, _, -, made⟩ := Run.bind_eq_ok_iff.1 ran
          obtain ⟨rfl, -⟩ := Run.pure_eq_ok_iff.1 made
          exact nofun

end Conversion

namespace Squash

variable {options : SquashOptions}

theorem notNeeded_iff {all : List MigrationFile} {batch : Batch} {lines : List Text}
    {hazards : List Hazard} {conversion : Conversion}
    (ran : convertIfUnsafe scripts options all batch lines hazards world = (.ok conversion, after)) :
    conversion = .notNeeded ↔ hazards = [] := by
  unfold convertIfUnsafe at ran
  cases hazards with
  | nil =>
      obtain ⟨rfl, -⟩ := Run.pure_eq_ok_iff.1 ran
      exact ⟨fun _ => rfl, fun _ => rfl⟩
  | cons hazard rest =>
      have needed : conversion ≠ .notNeeded := by
        simp only [List.isEmpty_cons, Bool.false_eq_true, if_false] at ran
        split at ran
        · obtain ⟨_, _, -, made⟩ := Run.bind_eq_ok_iff.1 ran
          obtain ⟨rfl, -⟩ := Run.pure_eq_ok_iff.1 made
          exact nofun
        · exact Conversion.ne_notNeeded_of_convert ran
      exact ⟨fun same => absurd same needed, nofun⟩

/-- The lines of the oldest migration that a squash is asked to merge, with the bodies of all. -/
def mergedLines (options : SquashOptions) (tree : FileTree) : List Text :=
  match migrations options tree with
  | [] => []
  | first :: rest => mergeInto first.source.lines (first :: rest)

/-- A squash reports the hazards of the merged source and converts exactly if there are any. -/
theorem reports_hazards {report : SquashReport} {before : World}
    (ran : squash scripts options before = (.ok (.squashed report), after)) :
    report.hazards = Hazard.find (Text.joinLines (mergedLines options before.tree)) ∧
      (report.conversion = .notNeeded ↔ report.hazards = []) := by
  obtain ⟨batch, loaded, course⟩ := squash_eq_ok ran
  have merged : batch.merged = mergedLines options before.tree := by
    rw [mergedLines, ← loaded.migrations]
    rfl
  generalize after.tree = final at course
  cases course with
  | done starts keeping writing converting removing =>
      rw [← merged]
      exact ⟨rfl, notNeeded_iff converting⟩

end Squash

end MigrationSquash
