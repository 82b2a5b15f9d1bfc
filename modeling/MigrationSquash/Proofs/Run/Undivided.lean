import MigrationSquash.Proofs.Run.Converted

/-!
# Conversions are whole or absent

Both procedures of a migration are converted or neither is, whatever the generator answers to its
two requests and whether or not there is a project.  What a run reports of a conversion is what is
on disk, and a conversion that does not come about is no reason for a run to fail.
-/

set_option autoImplicit false

namespace MigrationSquash

open Conversion (Generates)
open MigrationFile (sourceName)

variable {scripts : ScriptSource} {before after : World}

/-- What is written to the file of a listed migration changes this file and nothing else. -/
theorem node?_of_write_migration {tree last : FileTree} {directory : Path} {file : MigrationFile}
    {content : Bytes} (sound : tree.Sound) (opened : tree.isDirectory directory = true)
    (member : file ∈ Directory.migrations tree directory)
    (written : tree.write file.path content = .ok last) :
    ∃ place executable, tree.resolve file.path = .ok place ∧ ∀ other, last.node? other =
      if other = place then some (.file content executable) else tree.node? other := by
  obtain ⟨on, -, leads, -, entries⟩ := FileTree.exists_leads_of_isDirectory opened
  have listed := Directory.listedIn_of_mem sound entries member
  obtain ⟨old, executable, node⟩ := Directory.holdsFile_of_mem sound entries member
  rw [listed.path] at written ⊢
  obtain ⟨checked, short, rfl⟩ := FileTree.write_join_eq_ok leads listed.isEntry node written
  have resolved := (leads.resolve_join_iff listed.isEntry
    fun target isLink => by rw [node] at isLink; cases isLink).2 ⟨checked, short, rfl⟩
  exact ⟨_, executable, resolved,
    fun other => FileTree.node?_set _ _ _ _ (FileTree.append_name_ne_nil _ _)⟩

/-- A conversion on request changes nothing, or both procedures of the chosen migration and only
them. -/
theorem nodes_of_convertMigration (reads : ∀ request tree, (scripts request tree).2 = tree)
    (sound : before.tree.Sound) {options : ConvertOptions} {result : Except Failure ConvertOutcome}
    (ran : convertMigration scripts options before = (result, after)) :
    after.tree = before.tree ∧ (∀ path, result ≠ .ok (.finished path .converted)) ∧
      (∀ failure, result = .error failure → failure = .invalidDirectory options.directory ∨
        ∃ file error, options.chosen before.tree = some file ∧
          (failure = .read file.path error ∨ failure = .write file.path error ∧
            ∃ sql, Generates scripts options.settings
              (.ofListing (Directory.migrations before.tree options.directory) file.id file.id)
              before.tree sql)) ∨
    ∃ file source place sql executable, options.chosen before.tree = some file ∧
      before.tree.source? file.path = some source ∧
      result = .ok (.finished file.path .converted) ∧
      before.tree.resolve file.path = .ok place ∧
      Generates scripts options.settings
        (.ofListing (Directory.migrations before.tree options.directory) file.id file.id)
        before.tree sql ∧
      ∀ other, after.tree.node? other = if other = place then
        some (.file (source.withLines
          (Conversion.replaceBoth source.lines (sql .up) (sql .down))).toBytes executable)
        else before.tree.node? other := by
  rcases convertMigration_cases (· = before.tree)
    (fun request tree same => (reads request tree).trans same) rfl ran with
    ⟨same, rfl | rfl | ⟨file, error, chosen, rfl⟩⟩ |
      ⟨file, source, outcome, isDirectory, chosen, read, ends, rfl⟩
  · exact Or.inl ⟨same, nofun, nofun⟩
  · refine Or.inl ⟨same, nofun, ?_⟩
    rintro failure ⟨⟩
    exact Or.inl rfl
  · refine Or.inl ⟨same, nofun, ?_⟩
    rintro failure ⟨⟩
    exact Or.inr ⟨file, error, chosen, Or.inl rfl⟩
  · generalize after.tree = last at ends ⊢
    cases ends with
    | @kept conversion _ notConverted holds =>
        refine Or.inl ⟨holds, fun path same => notConverted ?_, nofun⟩
        exact (ConvertOutcome.finished.inj (Except.ok.inj same)).2
    | notWritten error holds generates =>
        refine Or.inl ⟨holds, nofun, ?_⟩
        rintro failure ⟨⟩
        exact Or.inr ⟨file, error, chosen, Or.inr ⟨rfl, _, generates.generates⟩⟩
    | @converted tree _ sql holds generates written =>
        obtain rfl := holds
        have opened : before.tree.isDirectory options.directory = true := by
          simp only [Directory.isDirectory, Bool.and_eq_true] at isDirectory
          exact isDirectory.2
        obtain ⟨place, executable, resolved, nodes⟩ :=
          node?_of_write_migration sound opened (ConvertOptions.mem_of_chosen chosen) written
        exact Or.inr ⟨file, source, place, sql, executable, chosen, read, rfl, resolved,
          generates.generates, nodes⟩

namespace Squash

variable {options : SquashOptions}

/-- A squash only fails because of files. -/
theorem isOfFiles_of_squash (sound : before.tree.Sound) {failure : Failure}
    (reads : ∀ request tree, (scripts request tree).2 = tree)
    (ran : squash scripts options before = (.error failure, after)) : failure.isOfFiles = true := by
  rcases squash_cases ran with
    ⟨-, ⟨⟨⟩⟩ | same | ⟨path, error, same⟩⟩ | ⟨batch, outcome, loaded, course, same⟩
  · obtain rfl := Except.error.inj same
    rfl
  · obtain rfl := Except.error.inj same
    rfl
  · obtain ⟨place, -, leads, -, entries⟩ := FileTree.exists_leads_of_isDirectory loaded.opened
    have listed (migration : StoredMigration) (member : migration ∈ batch.all) :=
      loaded.listed sound entries member
    generalize after.tree = last at course
    cases course with
    | done starts keeping writing converting removing => cases same
    | notKept starts keeping =>
        obtain rfl := Except.error.inj same
        rw [← starts] at listed
        exact isOfFiles_of_keepDesigner listed keeping rfl
    | notWritten error starts keeping =>
        obtain rfl := Except.error.inj same
        rfl
    | @notConverted start kept written last designer failure starts keeping writing converting =>
        obtain rfl := Except.error.inj same
        have ends := convertIfUnsafe_ends (· = written.tree)
          (fun request tree same => (reads request tree).trans same) rfl converting
        generalize last.tree = tree at ends
        cases ends
        rfl
    | notRemoved starts keeping writing converting removing =>
        obtain rfl := Except.error.inj same
        obtain ⟨path, error, rfl⟩ := exists_of_removeSubsumed_error removing
        rfl

end Squash

/-- A conversion on request changes nothing unless it reports that both procedures of the chosen
migration were converted, and then it changes only these.  A squash leaves the merged lines in the
oldest migration, or those with both scripts in place of the bodies if it reports a conversion.
Neither fails because of the project or the tool: a conversion whose scripts are not both there
does not even try to write. -/
theorem converts_both_or_neither (reads : ∀ request tree, (scripts request tree).2 = tree)
    (sound : before.tree.Sound) :
    (∀ (options : ConvertOptions) result after,
      convertMigration scripts options before = (result, after) →
      after.tree = before.tree ∧ (∀ path, result ≠ .ok (.finished path .converted)) ∧
        (∀ failure, result = .error failure → failure = .invalidDirectory options.directory ∨
          ∃ file error, options.chosen before.tree = some file ∧
            (failure = .read file.path error ∨ failure = .write file.path error ∧
              ∃ sql, Generates scripts options.settings
                (.ofListing (Directory.migrations before.tree options.directory) file.id file.id)
                before.tree sql)) ∨
      ∃ file source place sql executable, options.chosen before.tree = some file ∧
        before.tree.source? file.path = some source ∧
        result = .ok (.finished file.path .converted) ∧
        before.tree.resolve file.path = .ok place ∧
        Generates scripts options.settings
          (.ofListing (Directory.migrations before.tree options.directory) file.id file.id)
          before.tree sql ∧
        ∀ other, after.tree.node? other = if other = place then
          some (.file (source.withLines
            (Conversion.replaceBoth source.lines (sql .up) (sql .down))).toBytes executable)
          else before.tree.node? other) ∧
    ∀ (options : SquashOptions) result after,
      squash scripts options before = (result, after) →
      (∀ failure, result = .error failure → failure.isOfFiles = true) ∧
      ∀ report, result = .ok (.squashed report) → ∃ first rest lines,
        Squash.migrations options before.tree = first :: rest ∧
        after.tree.read report.primary = .ok (first.source.withLines lines).toBytes ∧
        (report.conversion ≠ .converted → lines = mergeInto first.source.lines (first :: rest)) ∧
        (report.conversion = .converted → ∃ tree sql,
          Generates scripts options.settings
            (.ofListing (Directory.migrations before.tree options.directory) first.id
              (rest.getLast?.getD first).id) tree sql ∧
          lines = Conversion.replaceBoth (mergeInto first.source.lines (first :: rest))
            (sql .up) (sql .down)) := by
  refine ⟨fun options result after ran => nodes_of_convertMigration reads sound ran,
    fun options result after ran => ⟨?_, ?_⟩⟩
  · rintro failure rfl
    exact Squash.isOfFiles_of_squash sound reads ran
  · rintro report rfl
    obtain ⟨batch, loaded, course⟩ := Squash.squash_eq_ok ran
    obtain ⟨place, -, leads, -, entries⟩ := FileTree.exists_leads_of_isDirectory loaded.opened
    have given := loaded.migrations.symm
    obtain ⟨-, lines, content, unconverted, replaced⟩ :=
      course.read_primary reads sound leads entries loaded given
    exact ⟨_, _, lines, given, content, unconverted, replaced⟩

namespace Sample

/-- A generator that fails when it is asked to revert. -/
def halfScripts : ScriptSource := Script.ofTexts (some evenScript) none "no tool".toList

theorem reads_halfScripts (request : ScriptRequest) (tree : FileTree) :
    (halfScripts request tree).2 = tree := by
  unfold halfScripts Script.ofTexts
  split
  · rfl
  · rfl

/-- The directory after a conversion that got one script of two. -/
def unconverted : World where
  tree := (single bothWays).tree
  output := []
  warnings := ["Warning: External tool failed: no tool; leaving 20240202000000_Orders as C#".toList]
  requests := requests bothWays.id

theorem convert_half :
    convertMigration halfScripts newestToSql (single bothWays) =
      (.ok (.finished (fileOf bothWays).path (.skipped "External tool failed: no tool".toList)),
        unconverted) := by
  refine Run.bind_eq_ok_iff.2 ⟨_, _, listed_single isListed_bothWays, ?_⟩
  decide +kernel

end Sample

/-- One script of two leaves a migration as it is, and a squash without a conversion leaves the
merged lines. -/
theorem converts_both_or_neither_sample :
    Sample.unconverted.tree = (Sample.single Sample.bothWays).tree ∧
    Sample.squashed.tree.read Sample.outcome.primary = .ok (Sample.oneWay.source.withLines
      (mergeInto Sample.oneWay.source.lines [Sample.oneWay, Sample.bothWays])).toBytes := by
  constructor
  · rcases (converts_both_or_neither Sample.reads_halfScripts Sample.sound_bothWays).1 _ _ _
      Sample.convert_half with ⟨same, -⟩ | ⟨file, source, place, sql, x, -, -, converted, -⟩
    · exact same
    · cases (ConvertOutcome.finished.inj (Except.ok.inj converted)).2
  · obtain ⟨-, merges⟩ := (converts_both_or_neither (fun _ _ => rfl) Sample.sound_full).2 _ _ _
      Sample.squash_full
    obtain ⟨first, rest, lines, given, content, unconverted, -⟩ := merges _ rfl
    obtain ⟨rfl, rfl⟩ := List.cons.inj (Sample.given_full.symm.trans given)
    rw [content, unconverted (by decide)]

end MigrationSquash
