import MigrationSquash.Proofs.Run.Effects

/-!
# The course of a squash

A squash that does anything lists the directory, loads what is selected and then takes its steps
in order, each on what the one before it left.  It ends after the last step or with the first one
that fails.
-/

set_option autoImplicit false

namespace MigrationSquash

open MigrationFile (sourceName)

variable {scripts : ScriptSource} {options : SquashOptions} {before after : World}

theorem Selection.select_sublist (selection : Selection) (files : List MigrationFile) :
    (selection.select files).Sublist files := by
  unfold select
  dsimp only
  split
  · exact List.filter_sublist
  · split
    · exact (List.take_sublist _ _).trans List.filter_sublist
    · exact List.nil_sublist _

/-- The lines of the oldest migration with the bodies of all. -/
def Batch.merged (batch : Batch) : List Text :=
  mergeInto batch.primary.source.lines (batch.all.map (·.toMigration))

namespace Squash

/-- The files that a squash is asked to merge. -/
def selected (options : SquashOptions) (tree : FileTree) : List MigrationFile :=
  options.selection.select (Directory.migrations tree options.directory)

/-- The migrations that a squash is asked to merge, as the tree holds them. -/
def migrations (options : SquashOptions) (tree : FileTree) : List Migration :=
  (selected options tree).filterMap fun file => (tree.source? file.path).map (⟨file.id, ·⟩)

theorem filterMap_of_sources {tree : FileTree} {stored : List StoredMigration}
    (sources : ∀ migration ∈ stored, tree.source? migration.path = some migration.source) :
    ((stored.map (·.file)).filterMap fun file =>
        (tree.source? file.path).map fun source => (⟨file.id, source⟩ : Migration)) =
      stored.map (·.toMigration) := by
  rw [List.filterMap_map, ← List.filterMap_eq_map]
  refine List.filterMap_congr fun migration member => ?_
  have own := sources migration member
  change tree.source? migration.file.path = _ at own
  rw [Function.comp_apply, own]
  rfl

/-- The steps of a squash of loaded migrations, as far as they succeed: the designer file is kept,
the merged source is written, it is converted if need be, and the other migrations are removed. -/
inductive Course (scripts : ScriptSource) (options : SquashOptions) (all : List MigrationFile)
    (batch : Batch) (before : FileTree) : Except Failure SquashReport → FileTree → Prop
  | notKept {start after : World} {failure : Failure} (starts : start.tree = before)
      (keeping : keepDesigner options batch start = (.error failure, after)) :
      Course scripts options all batch before (.error failure) after.tree
  | notWritten {start kept : World} {designer : Option Path} (error : FileError)
      (starts : start.tree = before)
      (keeping : keepDesigner options batch start = (.ok designer, kept)) :
      Course scripts options all batch before (.error (.write batch.primary.path error)) kept.tree
  | notConverted {start kept written after : World} {designer : Option Path} {failure : Failure}
      (starts : start.tree = before)
      (keeping : keepDesigner options batch start = (.ok designer, kept))
      (writing : kept.tree.write batch.primary.path
        (batch.primary.source.withLines batch.merged).toBytes = .ok written.tree)
      (converting : convertIfUnsafe scripts options all batch batch.merged
        (Hazard.find (Text.joinLines batch.merged)) written = (.error failure, after)) :
      Course scripts options all batch before (.error failure) after.tree
  | notRemoved {start kept written converted after : World} {designer : Option Path}
      {conversion : Conversion} {failure : Failure} (starts : start.tree = before)
      (keeping : keepDesigner options batch start = (.ok designer, kept))
      (writing : kept.tree.write batch.primary.path
        (batch.primary.source.withLines batch.merged).toBytes = .ok written.tree)
      (converting : convertIfUnsafe scripts options all batch batch.merged
        (Hazard.find (Text.joinLines batch.merged)) written = (.ok conversion, converted))
      (removing : removeSubsumed options.settings.verbose designer batch.subsumed converted =
        (.error failure, after)) :
      Course scripts options all batch before (.error failure) after.tree
  | done {start kept written converted after : World} {designer : Option Path}
      {conversion : Conversion} {removed : List Path} (starts : start.tree = before)
      (keeping : keepDesigner options batch start = (.ok designer, kept))
      (writing : kept.tree.write batch.primary.path
        (batch.primary.source.withLines batch.merged).toBytes = .ok written.tree)
      (converting : convertIfUnsafe scripts options all batch batch.merged
        (Hazard.find (Text.joinLines batch.merged)) written = (.ok conversion, converted))
      (removing : removeSubsumed options.settings.verbose designer batch.subsumed converted =
        (.ok removed, after)) :
      Course scripts options all batch before
        (.ok ⟨batch.primary.path, designer, batch.all.map (·.id), removed,
          Hazard.find (Text.joinLines batch.merged), conversion⟩) after.tree

theorem course_of_squashBatch {all : List MigrationFile} {batch : Batch}
    {result : Except Failure SquashReport}
    (ran : squashBatch scripts options all batch before = (result, after)) :
    Course scripts options all batch before.tree result after.tree := by
  obtain ⟨start, starts, ran⟩ := (Run.Speaks.sayIf _ _).next ran
  rcases Run.bind_cases ran with ⟨failure, keeping, rfl⟩ | ⟨designer, kept, keeping, ran⟩
  · exact .notKept starts keeping
  rcases Run.bind_cases ran with ⟨failure, writing, rfl⟩ | ⟨_, written, writing, ran⟩
  · obtain ⟨error, rfl, same⟩ := Run.change_eq_error writing
    rw [same]
    exact .notWritten error starts keeping
  obtain ⟨warned, warnedTree, ran⟩ := (speaks_warnAll _).next ran
  have wrote : kept.tree.write batch.primary.path
      (batch.primary.source.withLines batch.merged).toBytes = .ok warned.tree := by
    rw [warnedTree]
    exact Run.change_eq_ok writing
  rcases Run.bind_cases ran with ⟨failure, converting, rfl⟩ | ⟨conversion, converted, converting, ran⟩
  · exact .notConverted starts keeping wrote converting
  rcases Run.bind_cases ran with ⟨failure, removing, rfl⟩ | ⟨removed, cleared, removing, ran⟩
  · exact .notRemoved starts keeping wrote converting removing
  obtain ⟨said, saidTree, ran⟩ := (Run.Speaks.sayIf _ _).next ran
  obtain ⟨rfl, rfl⟩ := Prod.mk.inj ran
  rw [saidTree]
  have ids : (batch.all.map (·.toMigration)).map (·.id) = batch.all.map (·.id) := by
    rw [List.map_map]
    rfl
  have report := Course.done starts keeping wrote converting removing
  rw [← ids] at report
  exact report

theorem speaks_checkTarget (selection : Selection) (all : List MigrationFile) :
    Run.Speaks (checkTarget selection all) := by
  unfold checkTarget
  split
  · split
    · exact .pure
    · exact .warn _
  · exact .pure

/-- The migrations that a squash is asked to merge, as they were loaded. -/
structure Loaded (options : SquashOptions) (tree : FileTree) (batch : Batch) : Prop where
  isDirectory : Directory.isDirectory tree options.directory = true
  files : batch.all.map (·.file) = selected options tree
  sources : ∀ migration ∈ batch.all, tree.source? migration.path = some migration.source

theorem Loaded.migrations {tree : FileTree} {batch : Batch} (loaded : Loaded options tree batch) :
    batch.all.map (·.toMigration) = Squash.migrations options tree := by
  rw [Squash.migrations, ← loaded.files]
  exact (filterMap_of_sources loaded.sources).symm

/-- A squash leaves the tree as it is unless all that is selected was loaded. -/
theorem squash_cases {result : Except Failure SquashOutcome}
    (ran : squash scripts options before = (result, after)) :
    after.tree = before.tree ∧ (result = .ok .nothingToProcess ∨
      result = .error (.invalidDirectory options.directory) ∨
      ∃ path error, result = .error (.read path error)) ∨
    ∃ batch outcome, Loaded options before.tree batch ∧
      Course scripts options (Directory.migrations before.tree options.directory) batch before.tree
        outcome after.tree ∧
      result = outcome.map .squashed := by
  obtain ⟨told, toldTree, ran⟩ := (Run.Speaks.sayIf _ _).next ran
  rcases Directory.bind_list_cases ran with ⟨rfl, rfl⟩ | ⟨isDirectory, ran⟩
  · exact Or.inl ⟨toldTree, Or.inr (Or.inl rfl)⟩
  rw [toldTree] at isDirectory ran
  obtain ⟨checked, checkedTree, ran⟩ := (speaks_checkTarget _ _).next ran
  rw [toldTree] at checkedTree
  have chosen : selected options before.tree =
      options.selection.select (Directory.migrations before.tree options.directory) := rfl
  cases selection : options.selection.select
      (Directory.migrations before.tree options.directory) with
  | nil =>
      rw [selection] at ran
      obtain ⟨said, saidTree, ran⟩ := (Run.Speaks.sayIf _ _).next ran
      obtain ⟨rfl, rfl⟩ := Prod.mk.inj ran
      exact Or.inl ⟨saidTree.trans checkedTree, Or.inl rfl⟩
  | cons first rest =>
      rw [selection] at ran
      obtain ⟨named, namedTree, ran⟩ := (Run.Speaks.sayIf _ _).next ran
      rw [checkedTree] at namedTree
      rcases Run.bind_cases ran with ⟨failure, loading, rfl⟩ | ⟨stored, loaded, loading, ran⟩
      · obtain ⟨⟨file, -, error, rfl⟩, same⟩ := Directory.loadAll_eq_error loading
        exact Or.inl ⟨same.trans namedTree, Or.inr (Or.inr ⟨_, error, rfl⟩)⟩
      obtain ⟨rfl, files, sources⟩ := Directory.loadAll_eq_ok loading
      rw [namedTree] at sources
      cases stored with
      | nil => cases files
      | cons primary subsumed =>
          right
          refine ⟨⟨primary, subsumed⟩, ?_⟩
          have complete : Loaded options before.tree ⟨primary, subsumed⟩ :=
            ⟨isDirectory, by rw [chosen, selection]; exact files, sources⟩
          obtain ⟨outcome, squashed, rfl⟩ := Run.bind_pure_cases ran
          have course := course_of_squashBatch squashed
          rw [namedTree] at course
          exact ⟨outcome, complete, course, rfl⟩

/-- A squash that reports anything loaded all that is selected and took every step. -/
theorem squash_eq_ok {report : SquashReport}
    (ran : squash scripts options before = (.ok (.squashed report), after)) :
    ∃ batch, Loaded options before.tree batch ∧
      Course scripts options (Directory.migrations before.tree options.directory) batch before.tree
        (.ok report) after.tree := by
  rcases squash_cases ran with ⟨-, ⟨⟨⟩⟩ | ⟨⟨⟩⟩ | ⟨_, _, ⟨⟩⟩⟩ | ⟨batch, outcome, loaded, course, same⟩
  cases outcome with
  | error failure => cases same
  | ok done =>
      obtain rfl := SquashOutcome.squashed.inj (Except.ok.inj same)
      exact ⟨batch, loaded, course⟩

end Squash

/-! ## Conversions on request -/

/-- The migration that is converted on request. -/
def ConvertOptions.chosen (options : ConvertOptions) (tree : FileTree) : Option MigrationFile :=
  match options.migration with
  | some name => Catalog.find? (Directory.migrations tree options.directory) name
  | none => (Directory.migrations tree options.directory).getLast?

theorem ConvertOptions.mem_of_chosen {options : ConvertOptions} {tree : FileTree}
    {file : MigrationFile} (chosen : options.chosen tree = some file) :
    file ∈ Directory.migrations tree options.directory := by
  unfold ConvertOptions.chosen at chosen
  split at chosen
  · unfold Catalog.find? at chosen
    rcases Option.or_eq_some_iff.1 chosen with found | ⟨-, chosen⟩
    · exact List.mem_of_find?_eq_some found
    · rcases Option.or_eq_some_iff.1 chosen with found | ⟨-, found⟩ <;>
        exact List.mem_of_find?_eq_some found
  · exact List.mem_of_getLast? chosen

theorem speaks_reportNoMigration (options : ConvertOptions) :
    Run.Speaks (reportNoMigration options) := by
  unfold reportNoMigration
  split
  · exact .warn _
  · exact .sayIf _ _

/-- What a conversion does with the migration that is chosen, if any. -/
def convertChosen (scripts : ScriptSource) (options : ConvertOptions) (all : List MigrationFile) :
    Option MigrationFile → Run ConvertOutcome
  | none => do
      reportNoMigration options
      return .nothingToProcess
  | some file => do
      Run.sayIf options.settings.verbose
        ("Converting ".toList ++ file.id.toText ++ " to SQL".toList)
      let stored ← Directory.load file
      let conversion ← Conversion.convert scripts options.settings stored
        (.ofListing all stored.id stored.id) stored.source.lines
      return .finished stored.path conversion

/-- A conversion on request leaves the tree as it is unless the chosen migration was loaded. -/
theorem convertMigration_cases (kind : FileTree → Prop)
    (serves : ∀ request tree, kind tree → kind (scripts request tree).2)
    (start : kind before.tree) {options : ConvertOptions} {result : Except Failure ConvertOutcome}
    (ran : convertMigration scripts options before = (result, after)) :
    after.tree = before.tree ∧ (result = .ok .nothingToProcess ∨
      result = .error (.invalidDirectory options.directory) ∨
      ∃ file error, options.chosen before.tree = some file ∧
        result = .error (.read file.path error)) ∨
    ∃ file source outcome, Directory.isDirectory before.tree options.directory = true ∧
      options.chosen before.tree = some file ∧ before.tree.source? file.path = some source ∧
      Conversion.Ends kind scripts options.settings ⟨file, source⟩
        (.ofListing (Directory.migrations before.tree options.directory) file.id file.id)
        source.lines outcome after.tree ∧
      result = outcome.map (.finished file.path) := by
  unfold convertMigration at ran
  rcases Directory.bind_list_cases ran with ⟨rfl, rfl⟩ | ⟨isDirectory, ran⟩
  · exact Or.inl ⟨rfl, Or.inr (Or.inl rfl)⟩
  change convertChosen scripts options (Directory.migrations before.tree options.directory)
    (options.chosen before.tree) before = (result, after) at ran
  cases chosen : options.chosen before.tree with
  | none =>
      rw [chosen] at ran
      obtain ⟨told, toldTree, ran⟩ := (speaks_reportNoMigration _).next ran
      obtain ⟨rfl, rfl⟩ := Prod.mk.inj ran
      exact Or.inl ⟨toldTree, Or.inl rfl⟩
  | some file =>
      rw [chosen] at ran
      obtain ⟨told, toldTree, ran⟩ := (Run.Speaks.sayIf _ _).next ran
      rcases Run.bind_cases ran with ⟨failure, loading, rfl⟩ | ⟨stored, loaded, loading, later⟩
      · obtain ⟨⟨error, rfl⟩, same⟩ := Directory.load_eq_error loading
        exact Or.inl ⟨same.trans toldTree, Or.inr (Or.inr ⟨file, error, rfl, rfl⟩)⟩
      obtain ⟨rfl, rfl, found⟩ := Directory.load_eq_ok loading
      rw [toldTree] at found
      rw [← toldTree] at start
      obtain ⟨outcome, converting, rfl⟩ := Run.bind_pure_cases later
      exact Or.inr ⟨stored.file, stored.source, outcome, isDirectory, rfl, found,
        Conversion.convert_ends serves start converting, rfl⟩

end MigrationSquash
