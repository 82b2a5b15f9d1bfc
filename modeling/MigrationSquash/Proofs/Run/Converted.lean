import MigrationSquash.Proofs.Run.Kept
import MigrationSquash.Proofs.Script.Body
import MigrationSquash.Script.Given

/-!
# Conversions that are reported

A run reports a conversion once both scripts are there and the file is written, whether or
not the file held the procedures.  Main statement: of the scripts for a file whose
procedures can be told apart those are run by what is read back of the file whose procedure
it held and whose first line keeps its end.
-/

set_option autoImplicit false

namespace MigrationSquash

open Code (Divided locate? extract)
open Conversion (Generates Settings)
open MigrationFile (sourceName)
open Script (Executes Plain Ragged)

variable {scripts : ScriptSource} {before after : World}

/-- A run that reports a conversion: the file that it converted, the source whose bodies gave way
to scripts, and the range that the scripts are for. -/
inductive Reports (scripts : ScriptSource) (before after : World) :
    Path → Settings → Path → Source → ScriptRange → Prop
  | squashed {options : SquashOptions} {report : SquashReport} {first : Migration}
      {rest : List Migration} (given : Squash.migrations options before.tree = first :: rest)
      (ran : squash scripts options before = (.ok (.squashed report), after))
      (converted : report.conversion = .converted) :
      Reports scripts before after options.directory options.settings report.primary
        (first.source.withLines (mergeInto first.source.lines (first :: rest)))
        (.ofListing (Directory.migrations before.tree options.directory) first.id
          (rest.getLast?.getD first).id)
  | requested {options : ConvertOptions} {file : MigrationFile} {source : Source}
      (chosen : options.chosen before.tree = some file)
      (read : before.tree.source? file.path = some source)
      (ran : convertMigration scripts options before =
        (.ok (.finished file.path .converted), after)) :
      Reports scripts before after options.directory options.settings file.path source
        (.ofListing (Directory.migrations before.tree options.directory) file.id file.id)

section

variable (reads : ∀ request tree, (scripts request tree).2 = tree) (sound : before.tree.Sound)
include reads sound

/-- A conversion on request writes both scripts into the chosen file. -/
theorem read_of_convertMigration {options : ConvertOptions} {file : MigrationFile}
    {source : Source}
    (unlinked : ∀ entry ∈ before.tree.entries options.directory, ∀ target, entry.2 ≠ .link target)
    (chosen : options.chosen before.tree = some file)
    (read : before.tree.source? file.path = some source)
    (ran : convertMigration scripts options before =
      (.ok (.finished file.path .converted), after)) :
    ∃ tree sql,
      Generates scripts options.settings
        (.ofListing (Directory.migrations before.tree options.directory) file.id file.id) tree sql ∧
      after.tree.read file.path = .ok (source.withLines
        (Conversion.replaceBoth source.lines (sql .up) (sql .down))).toBytes := by
  rcases convertMigration_cases (· = before.tree)
    (fun request tree same => (reads request tree).trans same) rfl ran with
    ⟨-, ⟨⟨⟩⟩ | ⟨⟨⟩⟩ | ⟨_, _, _, ⟨⟩⟩⟩ | ⟨other, found, outcome, isDirectory, chosen', read', ends, same⟩
  obtain rfl := Option.some.inj (chosen.symm.trans chosen')
  obtain rfl := Option.some.inj (read.symm.trans read')
  cases outcome with
  | error failure => cases same
  | ok conversion =>
      obtain ⟨-, rfl⟩ := ConvertOutcome.finished.inj (Except.ok.inj same)
      have opened : before.tree.isDirectory options.directory = true := by
        simp only [Directory.isDirectory, Bool.and_eq_true] at isDirectory
        exact isDirectory.2
      obtain ⟨place, hosts, entries⟩ := sound.exists_hosts opened unlinked
      have listed := Directory.listedIn_of_mem sound entries (ConvertOptions.mem_of_chosen chosen)
      generalize after.tree = last at ends
      cases ends with
      | kept notConverted => exact absurd rfl notConverted
      | @converted tree _ sql holds generates writing =>
          obtain rfl := holds
          refine ⟨_, sql, generates.generates, ?_⟩
          change before.tree.write file.path _ = _ at writing
          rw [listed.path] at writing ⊢
          obtain ⟨checked, short, edits, executable, nodes⟩ :=
            hosts.write_join listed.isEntry writing
          exact ((hosts.edited edits).read_join_iff listed.isEntry).2
            ⟨checked, short, executable, (nodes _).trans (if_pos rfl)⟩

/-- What is written when a conversion is reported: the source with both scripts as bodies. -/
theorem Reports.exists_read {directory path : Path} {settings : Settings} {source : Source}
    {range : ScriptRange}
    (unlinked : ∀ entry ∈ before.tree.entries directory, ∀ target, entry.2 ≠ .link target)
    (reports : Reports scripts before after directory settings path source range) :
    ∃ tree sql, Generates scripts settings range tree sql ∧
      after.tree.read path = .ok (source.withLines
        (Conversion.replaceBoth source.lines (sql .up) (sql .down))).toBytes := by
  cases reports with
  | squashed given ran converted =>
      obtain ⟨-, lines, content, -, replaced⟩ :=
        Squash.exists_read_primary reads sound unlinked given ran
      obtain ⟨tree, sql, generates, rfl⟩ := replaced converted
      exact ⟨tree, sql, generates, content⟩
  | requested chosen read ran =>
      exact read_of_convertMigration reads sound unlinked chosen read ran

end

theorem source?_of_read {tree : FileTree} {path : Path} {source : Source}
    (faithful : source.Faithful) (read : tree.read path = .ok source.toBytes) :
    ∃ written, tree.source? path = some written ∧
      written.lines = if source.lines = [] then [[]] else source.lines := by
  obtain ⟨written, decoded, lines⟩ := Source.exists_ofBytes?_toBytes faithful
  refine ⟨written, ?_, lines⟩
  rw [FileTree.source?, read]
  exact decoded

namespace Script

/-- A file without lines is read back with an empty one, which holds no procedure either. -/
theorem executes_emptyLine (procedure : Procedure) (sql : Text) :
    ¬ Executes procedure sql [] ∧ ¬ Executes procedure sql [[]] := by
  have absent : ∀ lines ∈ [[], [[]]], (locate? procedure lines).isSome = false := by
    cases procedure <;> decide
  refine ⟨?_, ?_⟩ <;> rintro ⟨present, -⟩
  · rw [absent [] (by simp)] at present
    cases present
  · rw [absent [[]] (by simp)] at present
    cases present

/-- A source with plain scripts as bodies is read back as it is written. -/
theorem faithful_replaceBoth {source : Source} (faithful : source.Faithful)
    {sql : Procedure → Text} (plain : ∀ procedure, Plain procedure (sql procedure)) :
    (source.withLines (Conversion.replaceBoth source.lines (sql .up) (sql .down))).Faithful := by
  have unbrokenBody (procedure : Procedure) :
      ∀ line ∈ Text.lines (toBody (sql procedure)), '\n' ∉ line :=
    fun _ => Text.unbroken_of_mem_lines
  have endsBody (procedure : Procedure) :=
    ends_toBody (plain procedure).ends
  refine ⟨?_, ?_, ?_⟩
  · exact Code.not_mem_replace (by decide)
      (Code.not_mem_replace (by decide) faithful.unbroken (unbrokenBody .up)) (unbrokenBody .down)
  · intro feed
    exact Code.getLast?_replace (by decide)
      (Code.getLast?_replace (by decide) (faithful.noReturn feed) (endsBody .up)) (endsBody .down)
  · intro noMark
    exact Code.unmarked_replace _ (Code.unmarked_replace _ (faithful.unmarked noMark))

end Script

/-- A script is run by what is read back of a file whose conversion was reported exactly if the
file held the procedure and the first line of the script keeps its end. -/
theorem executes_of_reports_iff {directory path : Path} {settings : Settings} {source : Source}
    {range : ScriptRange}
    (reads : ∀ request tree, (scripts request tree).2 = tree) (sound : before.tree.Sound)
    (unlinked : ∀ entry ∈ before.tree.entries directory, ∀ target, entry.2 ≠ .link target)
    (reports : Reports scripts before after directory settings path source range)
    (faithful : source.Faithful) (divided : Divided source.lines)
    (plain : ∀ tree sql, Generates scripts settings range tree sql →
      ∀ procedure, Plain procedure (sql procedure)) :
    ∃ written tree sql, after.tree.source? path = some written ∧
      Generates scripts settings range tree sql ∧
      ∀ procedure, Executes procedure (sql procedure) written.lines ↔
        (locate? procedure source.lines).isSome = true ∧ ¬ Ragged (sql procedure) := by
  obtain ⟨tree, sql, generates, content⟩ := reports.exists_read reads sound unlinked
  have plainScripts := plain tree sql generates
  obtain ⟨written, read, lines⟩ :=
    source?_of_read (Script.faithful_replaceBoth faithful plainScripts) content
  refine ⟨written, tree, sql, read, generates, fun procedure => ?_⟩
  have trimmed : ∀ procedure, Text.trim (sql procedure) = sql procedure := by
    intro procedure
    obtain ⟨project, generated⟩ := generates
    obtain ⟨raw, -, same⟩ := generated procedure
    rw [same, Script.sanitize, Text.trim_trim]
  rw [← Script.executes_replaceBoth_iff divided plainScripts trimmed, lines]
  change Executes _ _ (if Conversion.replaceBoth _ _ _ = [] then _ else _) ↔ _
  split
  case isTrue empty =>
    obtain ⟨none, noneEither⟩ := Script.executes_emptyLine procedure (sql procedure)
    rw [empty]
    exact iff_of_false noneEither none
  case isFalse => exact Iff.rfl

namespace Sample

/-- A directory with one migration. -/
def single (migration : Migration) : World :=
  .ofTree ⟨[([directory], .directory), entryOf migration migration.source], []⟩

def newestToSql : ConvertOptions where
  directory := directory
  migration := none
  settings := ⟨some "App.csproj".toList, "__EFMigrationsHistory".toList, false⟩

def givenScripts (up : Text) : ScriptSource := Script.ofTexts (some up) (some []) []

theorem reads_givenScripts {up : Text} (request : ScriptRequest) (tree : FileTree) :
    (givenScripts up request tree).2 = tree := by
  unfold givenScripts Script.ofTexts
  split
  · rfl
  · rfl

def requests (id : MigrationId) : List ScriptRequest :=
  [⟨['0'], id.toText, "App.csproj".toList⟩, ⟨id.toText, ['0'], "App.csproj".toList⟩]

/-- The directory with other lines in its migration. -/
def convertedTo (migration : Migration) (lines : List Text) : World where
  tree := ⟨[entryOf migration (migration.source.withLines lines), ([directory], .directory)], []⟩
  output := []
  warnings := []
  requests := requests migration.id

theorem entries_single (migration : Migration) :
    (single migration).tree.entries directory =
      [(sourceName migration.id, .file migration.source.toBytes false)] := by
  have resolved : (single migration).tree.resolve directory = .ok [directory] := by rfl
  have opened : (single migration).tree.node? [directory] = some .directory := by rfl
  rw [FileTree.entries, resolved]
  exact (if_pos opened).trans (List.mergeSort_of_pairwise (List.pairwise_singleton _ _))

/-- A script of two lines with quotes and a brace. -/
def evenScript : Text := "UPDATE \"t\"\nSET x = '\x7b';".toList

/-- A script whose first line ends in a blank. -/
def raggedScript : Text := "SELECT 1 \nFROM t;".toList

/-- What the migration holds when it is converted. -/
def evenLines : List Text := [
  "class Orders \x7b".toList,
  "    void Up(M m) \x7b".toList,
  "        migrationBuilder.Sql(@\"UPDATE \"\"t\"\"".toList,
  "SET x = '\x7b';\");".toList,
  "    \x7d".toList,
  "    void Down(M m) \x7b".toList,
  "    \x7d".toList,
  "\x7d".toList]

/-- The migration with the script in the block that it has. -/
def oneWayLines : List Text := [
  "class Users \x7b".toList,
  "    void Up(M m) \x7b".toList,
  "        migrationBuilder.Sql(@\"UPDATE \"\"t\"\"".toList,
  "SET x = '\x7b';\");".toList,
  "    \x7d".toList,
  "    void Down(M m) => throw null;".toList,
  "\x7d".toList]

/-- The migration with a script that has lost a blank. -/
def raggedLines : List Text := [
  "class Orders \x7b".toList,
  "    void Up(M m) \x7b".toList,
  "        migrationBuilder.Sql(@\"SELECT 1".toList,
  "FROM t;\");".toList,
  "    \x7d".toList,
  "    void Down(M m) \x7b".toList,
  "    \x7d".toList,
  "\x7d".toList]

theorem migrations_single {migration : Migration}
    (listed : Directory.migration? (single migration).tree directory
      (sourceName migration.id, .file migration.source.toBytes false) =
        some (fileOf migration)) :
    Directory.migrations (single migration).tree directory = [fileOf migration] := by
  rw [Directory.migrations, entries_single, List.filterMap_cons, listed]
  rfl

theorem listed_single {migration : Migration}
    (listed : Directory.migration? (single migration).tree directory
      (sourceName migration.id, .file migration.source.toBytes false) =
        some (fileOf migration)) :
    Directory.list directory (single migration) = (.ok [fileOf migration], single migration) :=
  Directory.list_eq (by rfl) (migrations_single listed)

theorem isListed_bothWays : Directory.migration? (single bothWays).tree directory
    (sourceName bothWays.id, .file bothWays.source.toBytes false) = some (fileOf bothWays) := by
  decide

theorem isListed_oneWay : Directory.migration? (single oneWay).tree directory
    (sourceName oneWay.id, .file oneWay.source.toBytes false) = some (fileOf oneWay) := by
  decide

theorem convert_bothWays :
    convertMigration (givenScripts evenScript) newestToSql (single bothWays) =
      (.ok (.finished (fileOf bothWays).path .converted), convertedTo bothWays evenLines) := by
  refine Run.bind_eq_ok_iff.2 ⟨_, _, listed_single isListed_bothWays, ?_⟩
  decide +kernel

theorem sound_bothWays : (single bothWays).tree.Sound where
  nested := FileTree.nested_of_entries (by decide)
  distinct := by decide
  noSlash := by decide

theorem located_bothWays :
    locate? .up bothWays.source.lines = some ⟨1, ⟨1, 17⟩, ⟨1, 29⟩⟩ ∧
      locate? .down bothWays.source.lines = some ⟨2, ⟨2, 19⟩, ⟨2, 32⟩⟩ := by
  decide

theorem divided_bothWays : Divided bothWays.source.lines where
  before procedure bounds located := by
    obtain ⟨up, down⟩ := located_bothWays
    cases procedure with
    | up =>
        obtain rfl := Option.some.inj (up.symm.trans located)
        exact Or.inr ⟨4, 12, by decide, by decide⟩
    | down =>
        obtain rfl := Option.some.inj (down.symm.trans located)
        exact Or.inr ⟨4, 14, by decide, by decide⟩
  apart up down upLocated downLocated := by
    obtain rfl := Option.some.inj (located_bothWays.1.symm.trans upLocated)
    obtain rfl := Option.some.inj (located_bothWays.2.symm.trans downLocated)
    decide
  unsigned procedure other differ := by
    have all : (∀ line ∈ Code.regionLines .up bothWays.source.lines,
          Procedure.isDeclaredIn .down line = false) ∧
        ∀ line ∈ Code.regionLines .down bothWays.source.lines,
          Procedure.isDeclaredIn .up line = false := by
      decide
    cases procedure with
    | up =>
        cases other with
        | up => exact absurd rfl differ
        | down => exact all.1
    | down =>
        cases other with
        | up => exact all.2
        | down => exact absurd rfl differ

theorem faithful_bothWays : bothWays.source.Faithful where
  unbroken := by
    unfold Text.Unbroken
    decide
  noReturn _ := by decide
  unmarked _ := by
    unfold Text.Unmarked
    decide

/-- The scripts for the migration, whichever project they are generated for. -/
theorem scripts_bothWays {tree : FileTree} {sql : Procedure → Text}
    (generates : Generates (givenScripts evenScript) newestToSql.settings
      (.ofListing [fileOf bothWays] (fileOf bothWays).id (fileOf bothWays).id) tree sql) :
    sql .up = evenScript ∧ sql .down = [] := by
  obtain ⟨project, generated⟩ := generates
  obtain ⟨up, foundUp, sameUp⟩ := generated .up
  obtain ⟨down, foundDown, sameDown⟩ := generated .down
  obtain rfl : evenScript = up := Except.ok.inj foundUp
  obtain rfl : [] = down := Except.ok.inj foundDown
  rw [sameUp, sameDown]
  decide +kernel

theorem plain_scripts {tree : FileTree} {sql : Procedure → Text}
    (generates : Generates (givenScripts evenScript) newestToSql.settings
      (.ofListing [fileOf bothWays] (fileOf bothWays).id (fileOf bothWays).id) tree sql)
    (procedure : Procedure) : Plain procedure (sql procedure) := by
  obtain ⟨up, down⟩ := scripts_bothWays generates
  have silent : ∀ other, Code.Silent other (Script.toBody evenScript) := by
    unfold Code.Silent
    rintro (_ | _) <;> decide +kernel
  cases procedure with
  | up =>
      rw [up]
      exact ⟨fun other _ => silent other, by decide⟩
  | down =>
      rw [down]
      exact ⟨fun _ _ => Code.Silent.nil, by decide⟩

end Sample

/-- Both procedures of a migration run their scripts when it is reported as converted. -/
theorem executes_of_reports_sample :
    ∃ written tree sql,
      (Sample.convertedTo Sample.bothWays Sample.evenLines).tree.source?
        (Sample.fileOf Sample.bothWays).path = some written ∧
      Generates (Sample.givenScripts Sample.evenScript) Sample.newestToSql.settings
        (.ofListing [Sample.fileOf Sample.bothWays] (Sample.fileOf Sample.bothWays).id
          (Sample.fileOf Sample.bothWays).id) tree sql ∧
      ∀ procedure, Executes procedure (sql procedure) written.lines := by
  have listed := Sample.migrations_single Sample.isListed_bothWays
  have chosen : Sample.newestToSql.chosen (Sample.single Sample.bothWays).tree =
      some (Sample.fileOf Sample.bothWays) := congrArg List.getLast? listed
  have read : (Sample.single Sample.bothWays).tree.source? (Sample.fileOf Sample.bothWays).path =
      some Sample.bothWays.source := by decide
  have reports := Reports.requested chosen read Sample.convert_bothWays
  rw [show Sample.newestToSql.directory = Sample.directory from rfl, listed] at reports
  have unlinked : ∀ entry ∈ (Sample.single Sample.bothWays).tree.entries Sample.directory,
      ∀ target, entry.2 ≠ .link target := by
    rw [Sample.entries_single]
    intro entry member target
    obtain rfl := List.mem_singleton.1 member
    exact Node.noConfusion
  obtain ⟨written, tree, sql, read, generates, executes⟩ := executes_of_reports_iff
    Sample.reads_givenScripts Sample.sound_bothWays unlinked reports Sample.faithful_bothWays Sample.divided_bothWays
    fun _ _ generates => Sample.plain_scripts generates
  refine ⟨written, tree, sql, read, generates, fun procedure => (executes procedure).2 ?_⟩
  obtain ⟨up, down⟩ := Sample.scripts_bothWays generates
  cases procedure with
  | up =>
      rw [up, Sample.located_bothWays.1]
      refine ⟨rfl, ?_⟩
      rw [← Script.settle_eq_iff]
      decide
  | down =>
      rw [down, Sample.located_bothWays.2]
      refine ⟨rfl, ?_⟩
      rw [← Script.settle_eq_iff]
      rfl

/-- Conversions are reported though the file holds no `Down` block to write to, and though the
first line of a script loses its end. -/
theorem reported_without_script :
    convertMigration (Sample.givenScripts Sample.evenScript) Sample.newestToSql
        (Sample.single Sample.oneWay) =
      (.ok (.finished (Sample.fileOf Sample.oneWay).path .converted),
        Sample.convertedTo Sample.oneWay Sample.oneWayLines) ∧
    (Sample.convertedTo Sample.oneWay Sample.oneWayLines).tree.source?
      (Sample.fileOf Sample.oneWay).path = some (Sample.oneWay.source.withLines
        Sample.oneWayLines) ∧
    ¬ Executes .down [] Sample.oneWayLines ∧
    convertMigration (Sample.givenScripts Sample.raggedScript) Sample.newestToSql
        (Sample.single Sample.bothWays) =
      (.ok (.finished (Sample.fileOf Sample.bothWays).path .converted),
        Sample.convertedTo Sample.bothWays Sample.raggedLines) ∧
    (Sample.convertedTo Sample.bothWays Sample.raggedLines).tree.source?
      (Sample.fileOf Sample.bothWays).path = some (Sample.bothWays.source.withLines
        Sample.raggedLines) ∧
    Script.sanitize Sample.newestToSql.settings.historyTable Sample.raggedScript =
      Sample.raggedScript ∧
    ¬ Executes .up Sample.raggedScript Sample.raggedLines := by
  refine ⟨?_, by decide +kernel, ?_, ?_, by decide +kernel, by decide +kernel, ?_⟩
  · refine Run.bind_eq_ok_iff.2 ⟨_, _, Sample.listed_single Sample.isListed_oneWay, ?_⟩
    decide +kernel
  · rintro ⟨present, -⟩
    revert present
    decide +kernel
  · refine Run.bind_eq_ok_iff.2 ⟨_, _, Sample.listed_single Sample.isListed_bothWays, ?_⟩
    decide +kernel
  · rintro ⟨-, runs⟩
    have text : (extract .up Sample.raggedLines).text = Script.call "SELECT 1\nFROM t;".toList := by
      decide +kernel
    rw [text, if_neg (by decide), Script.runsOnly_call_iff] at runs
    revert runs
    decide +kernel

end MigrationSquash
