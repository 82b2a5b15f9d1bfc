import MigrationSquash.Proofs.Hazard.Context
import MigrationSquash.Proofs.Run.Converted
import MigrationSquash.Proofs.Run.Interrupted
import MigrationSquash.Proofs.Run.Reported

/-!
# Calls outside of code

A call in a comment or a literal of the merged source makes an event like any other.  So a squash
can report a hazard, and convert for it, where the merged migration neither renames nor drops
anything.  Where no such call stands outside of code, each reported hazard is one between two places
of code.
-/

set_option autoImplicit false

namespace MigrationSquash

open MigrationFile (sourceName)

/-- All events of a text are code exactly if no call that makes one stands in a comment or a
literal.  A squash whose merged source is the text reports the hazards of the text and converts
exactly if there are any; if no call of the text is stray, they lie in code. -/
theorem events_in_code_iff (s : Text) :
    (EventsInCode s ↔ NoStrayCall s) ∧
      ∀ scripts options before after report,
        squash scripts options before = (.ok (.squashed report), after) →
        Text.joinLines (Squash.mergedLines options before.tree) = s →
        report.hazards = Hazard.find s ∧
          (report.conversion = .notNeeded ↔ report.hazards = []) ∧
          (NoStrayCall s → ∀ hazard ∈ report.hazards,
            InCode s hazard.rename.position ∧ InCode s hazard.drop.position) := by
  refine ⟨eventsInCode_iff, fun scripts options before after report ran merged => ?_⟩
  obtain ⟨hazards, needed⟩ := Squash.reports_hazards ran
  rw [merged] at hazards
  refine ⟨hazards, needed, fun noStray hazard member => ?_⟩
  rw [hazards] at member
  exact (eventsInCode_iff.2 noStray).of_hazard member

namespace Sample

/-- A migration that is found and read where it stands alone in its directory. -/
structure Alone where
  migration : Migration
  listed : Directory.migration? (single migration).tree directory
    (sourceName migration.id, .file migration.source.toBytes false) = some (fileOf migration)
  read : (single migration).tree.source? (fileOf migration).path = some migration.source

/-- A squash of a single migration merges it into itself. -/
theorem Alone.mergedLines (alone : Alone) :
    Squash.mergedLines withProject (single alone.migration).tree =
      mergeInto alone.migration.source.lines [alone.migration] := by
  have selected : Squash.selected withProject (single alone.migration).tree =
      [fileOf alone.migration] :=
    congrArg withProject.selection.select (migrations_single alone.listed)
  rw [Squash.mergedLines, Squash.migrations, selected, List.filterMap_cons, alone.read]
  rfl

/-- A migration with a rename and a drop that are commented out. -/
def commentedOut : Alone where
  migration := {
    id := accounts
    source := {
      lines := [
        "class A \x7b".toList,
        "    void Up(M m) \x7b".toList,
        "        // m.RenameColumn(\"a\", \"t\", \"b\");".toList,
        "        // m.DropColumn(\"b\", \"t\");".toList,
        "    \x7d".toList,
        "\x7d".toList]
      newline := .lineFeed
      marked := false } }
  listed := by decide +kernel
  read := by decide +kernel

/-- The merged source, in which they are still commented out. -/
def commentedText : Text := Text.joinLines [
  "class A \x7b".toList,
  "    void Up(M m) \x7b".toList,
  "        \x7b".toList,
  "            // Squashed from 20240101000000_A".toList,
  "            // m.RenameColumn(\"a\", \"t\", \"b\");".toList,
  "            // m.DropColumn(\"b\", \"t\");".toList,
  "        \x7d".toList,
  "    \x7d".toList,
  "\x7d".toList]

/-- The hazard that is found in the comments. -/
def commentedHazard : Hazard :=
  ⟨⟨.column, some ['t'], some ['a'], ['b'], 101⟩, ⟨.column, some ['t'], ['b'], 147⟩⟩

/-- What the migration holds when it is converted. -/
def commentedConverted : World where
  tree := ⟨[entryOf commentedOut.migration (commentedOut.migration.source.withLines [
      "class A \x7b".toList,
      "    void Up(M m) \x7b".toList,
      "        migrationBuilder.Sql(@\"SELECT 1;\");".toList,
      "    \x7d".toList,
      "\x7d".toList]), ([directory], .directory)], []⟩
  output := []
  warnings := [
    "Warning: No designer file found for 20240101000000_A".toList,
    "Warning: column 'b' is renamed from 'a' and later dropped (in 't')".toList]
  requests := requests accounts

def commentedReport : SquashReport where
  primary := (fileOf commentedOut.migration).path
  designer := none
  squashed := [accounts]
  removed := []
  hazards := [commentedHazard]
  conversion := .converted

/-- The squash of the migration, and the source that it merges. -/
theorem run_commentedOut :
    squash (givenScripts "SELECT 1;".toList) withProject (single commentedOut.migration) =
        (.ok (.squashed commentedReport), commentedConverted) ∧
      Text.joinLines (Squash.mergedLines withProject (single commentedOut.migration).tree) =
        commentedText := by
  constructor
  · refine Run.bind_eq_ok_iff.2 ⟨(), _, rfl, Run.bind_eq_ok_iff.2
      ⟨_, _, listed_single commentedOut.listed, ?_⟩⟩
    decide +kernel
  · rw [commentedOut.mergedLines]
    decide +kernel

/-- A rename and a drop in code, behind a comment. -/
def calledText : Text :=
  "/* old */ m.RenameTable(\"A\", null, \"B\");\nm.DropTable(\"B\"); // m.Drop".toList

theorem eventsInCode_calledText : EventsInCode calledText where
  renames := by decide +kernel
  drops := by decide +kernel

end Sample

/-- Of a text whose calls are code it is known that no call is stray, and a squash converts for a
hazard of the merged source. -/
theorem events_in_code_sample :
    NoStrayCall Sample.calledText ∧
      Sample.commentedReport.hazards = Hazard.find Sample.commentedText ∧
      Sample.commentedReport.conversion ≠ .notNeeded := by
  obtain ⟨ran, merged⟩ := Sample.run_commentedOut
  obtain ⟨hazards, needed, -⟩ := (events_in_code_iff _).2 _ _ _ _ _ ran merged
  exact ⟨(events_in_code_iff _).1.1 Sample.eventsInCode_calledText, hazards,
    fun same => absurd (needed.1 same) nofun⟩

/-- A squash converts for a rename and a drop that are commented out. -/
theorem commented_calls_convert :
    squash (Sample.givenScripts "SELECT 1;".toList) Sample.withProject
        (Sample.single Sample.commentedOut.migration) =
      (.ok (.squashed Sample.commentedReport), Sample.commentedConverted) ∧
    Text.joinLines (Squash.mergedLines Sample.withProject
      (Sample.single Sample.commentedOut.migration).tree) = Sample.commentedText ∧
    Sample.commentedReport.conversion = .converted ∧
    ∃ hazard ∈ Sample.commentedReport.hazards,
      hazard.rename ∈ renameEvents Sample.commentedText ∧
      ¬ InCode Sample.commentedText hazard.rename.position ∧
      hazard.drop ∈ dropEvents Sample.commentedText ∧
      ¬ InCode Sample.commentedText hazard.drop.position :=
  ⟨Sample.run_commentedOut.1, Sample.run_commentedOut.2, rfl, Sample.commentedHazard,
    List.mem_singleton_self _, by decide +kernel, by decide +kernel, by decide +kernel,
    by decide +kernel⟩

end MigrationSquash
