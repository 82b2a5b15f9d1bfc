import MigrationSquash.Proofs.Run.Course

/-!
# What a squash leaves in the oldest migration

The oldest migration holds the merged source, or that source with both scripts in place of its
bodies if a conversion is reported.  This holds whatever links lie in the directory: the designer
file that is kept may lead anywhere, but the oldest migration is written after it.
-/

set_option autoImplicit false

namespace MigrationSquash.Squash

open MigrationFile (sourceName)

variable {scripts : ScriptSource} {options : SquashOptions} {before : FileTree} {batch : Batch}
  {place : Place}

namespace Loaded

variable (loaded : Loaded options before batch)
include loaded

theorem mem_migrations {migration : StoredMigration} (member : migration ∈ batch.all) :
    migration.file ∈ Directory.migrations before options.directory := by
  apply (options.selection.select_sublist _).subset
  change migration.file ∈ selected options before
  rw [← loaded.files]
  exact List.mem_map_of_mem member

theorem isFile {migration : StoredMigration} (member : migration ∈ batch.all) :
    before.isFile migration.path = true :=
  FileTree.isFile_of_source? (loaded.sources migration member)

theorem opened : before.isDirectory options.directory = true := by
  have isDirectory := loaded.isDirectory
  simp only [Directory.isDirectory, Bool.and_eq_true] at isDirectory
  exact isDirectory.2

variable (sound : before.Sound)
  (entries : before.entries options.directory = before.entriesAt place)
include sound entries

theorem listed {migration : StoredMigration} (member : migration ∈ batch.all) :
    migration.file.ListedIn before options.directory :=
  Directory.listedIn_of_mem sound entries (loaded.mem_migrations member)

theorem holdsFile {migration : StoredMigration} (member : migration ∈ batch.all) :
    before.HoldsFile (place ++ [sourceName migration.id]) :=
  Directory.holdsFile_of_mem sound entries (loaded.mem_migrations member)

theorem distinct : (batch.all.map fun migration => sourceName migration.id).Nodup := by
  have names := ((options.selection.select_sublist _).map fun file => sourceName file.id).nodup
    (Directory.nodup_names sound entries)
  change ((selected options before).map _).Nodup at names
  rwa [← loaded.files, List.map_map] at names

/-- No file of another migration has the name of the oldest one. -/
theorem sourceName_ne {migration : StoredMigration} (member : migration ∈ batch.subsumed) :
    sourceName batch.primary.id ≠ sourceName migration.id := by
  intro same
  exact (List.nodup_cons.1 (loaded.distinct sound entries)).1
    (List.mem_map.2 ⟨migration, member, same.symm⟩)

/-- No designer file has the name of a source file. -/
theorem sourceName_ne_designer {migration : StoredMigration} (member : migration ∈ batch.all)
    (id : MigrationId) : sourceName migration.id ≠ Designer.fileName id := by
  intro same
  have plain := (loaded.listed sound entries member).noDesigner
  rw [show sourceName migration.file.id = Designer.fileName id from same,
    MigrationFile.endsWith_designer] at plain
  cases plain

end Loaded

/-- The merged source is written over the oldest migration, whatever links the designer file that is
kept may lead through. -/
theorem Loaded.node?_written (loaded : Loaded options before batch) (sound : before.Sound)
    (leads : before.Leads options.directory place)
    (entries : before.entries options.directory = before.entriesAt place) {start kept : World}
    {designer : Option Path} {written : FileTree} (starts : start.tree = before)
    (keeping : keepDesigner options batch start = (.ok designer, kept))
    (writing : kept.tree.write batch.primary.path
      (batch.primary.source.withLines batch.merged).toBytes = .ok written) :
    before.Reaches options.directory place written ∧ ∃ executable, ∀ other,
      written.node? other = if other = place ++ [sourceName batch.primary.id] then
        some (.file (batch.primary.source.withLines batch.merged).toBytes executable)
        else kept.tree.node? other := by
  subst starts
  have primaryIn : batch.primary ∈ batch.all := List.mem_cons_self
  have listed (migration : StoredMigration) (member : migration ∈ batch.all) :=
    loaded.listed sound entries member
  have reachesKept := keepDesigner_reaches listed keeping sound.nested leads rfl
  -- the oldest migration is still a file when it is written
  have fileKept : kept.tree.HoldsFile (place ++ [sourceName batch.primary.id]) := by
    rcases keepDesigner_spares listed keeping sound.nested leads
      (place ++ [sourceName batch.primary.id]) (fun migration member same =>
        loaded.sourceName_ne_designer sound entries primaryIn migration.id
          (List.singleton_inj.1 (List.append_cancel_left same))) with same | ⟨-, -, -, file⟩
    · unfold FileTree.HoldsFile
      rw [same]
      exact loaded.holdsFile sound entries primaryIn
    · exact file
  rw [show batch.primary.path = Path.join options.directory (sourceName batch.primary.id) from
    (listed _ primaryIn).path] at writing
  obtain ⟨reaches, executable, rfl⟩ :=
    reachesKept.write (listed _ primaryIn).isEntry fileKept writing
  exact ⟨reaches, executable, fun other => FileTree.node?_set _ _ _ _ fileKept.ne_nil⟩

/-- A conversion that succeeds leaves the migration with the lines that it held, or with both
scripts in place of the bodies. -/
theorem node?_of_ends {settings : Conversion.Settings} {migration : StoredMigration}
    {range : ScriptRange} {lines : List Text} {conversion : Conversion} {directory : Path}
    {written after : FileTree} {executable : Bool}
    (reaches : before.Reaches directory place written)
    (path : migration.path = Path.join directory (sourceName migration.id))
    (entry : Path.IsEntry (sourceName migration.id))
    (node : written.node? (place ++ [sourceName migration.id]) =
      some (.file (migration.source.withLines lines).toBytes executable))
    (ends : Conversion.Ends (· = written) scripts settings migration range lines (.ok conversion)
      after) :
    before.Reaches directory place after ∧
      (∀ other, other ≠ place ++ [sourceName migration.id] →
        after.node? other = written.node? other) ∧
      ∃ newLines executable, after.node? (place ++ [sourceName migration.id]) =
        some (.file (migration.source.withLines newLines).toBytes executable) ∧
      (conversion ≠ .converted → newLines = lines) ∧
      (conversion = .converted → ∃ tree sql,
        Conversion.Generates scripts settings range tree sql ∧
          newLines = Conversion.replaceBoth lines (sql .up) (sql .down)) := by
  cases ends with
  | kept notConverted holds =>
      obtain rfl := holds
      exact ⟨reaches, fun _ _ => rfl, lines, executable, node, fun _ => rfl,
        fun converted => absurd converted notConverted⟩
  | @converted tree _ sql holds generates rewritten =>
      obtain rfl := holds
      rw [path] at rewritten
      have file : tree.HoldsFile (place ++ [sourceName migration.id]) := ⟨_, _, node⟩
      obtain ⟨reachesAfter, executable', rfl⟩ := reaches.write entry file rewritten
      have nodes := fun other => FileTree.node?_set tree (place ++ [sourceName migration.id]) other
        (.file (migration.source.withLines (Conversion.replaceBoth lines (sql .up) (sql .down))).toBytes
          executable') file.ne_nil
      exact ⟨reachesAfter, fun other differs => (nodes other).trans (if_neg differs), _, executable',
        (nodes _).trans (if_pos rfl), fun other => absurd rfl other,
        fun _ => ⟨tree, sql, generates.generates, rfl⟩⟩

/-- What a squash that succeeds has done before it removes what was merged: a designer file is kept,
and the oldest migration holds the merged lines or those with both scripts in place of the
bodies. -/
structure Converted (scripts : ScriptSource) (options : SquashOptions) (all : List MigrationFile)
    (batch : Batch) (place : Place) (report : SquashReport) (before kept converted : FileTree) :
    Prop where
  reaches : before.Reaches options.directory place converted
  others : ∀ other, other ≠ place ++ [sourceName batch.primary.id] →
    converted.node? other = kept.node? other
  primary : ∃ lines executable,
    converted.node? (place ++ [sourceName batch.primary.id]) =
      some (.file (batch.primary.source.withLines lines).toBytes executable) ∧
    (report.conversion ≠ .converted → lines = batch.merged) ∧
    (report.conversion = .converted → ∃ tree sql,
      Conversion.Generates scripts options.settings
        (.ofListing all batch.primary.id batch.newest.id) tree sql ∧
      lines = Conversion.replaceBoth batch.merged (sql .up) (sql .down))

variable {all : List MigrationFile} {report : SquashReport} {after : FileTree}
  (reads : ∀ request tree, (scripts request tree).2 = tree) (sound : before.Sound)
  (leads : before.Leads options.directory place)
  (entries : before.entries options.directory = before.entriesAt place)
  (loaded : Loaded options before batch)
  (course : Course scripts options all batch before (.ok report) after)
include reads sound leads entries loaded course

theorem Course.exists_converted :
    ∃ start kept converted last : World, start.tree = before ∧
      keepDesigner options batch start = (.ok report.designer, kept) ∧
      Converted scripts options all batch place report before kept.tree converted.tree ∧
      removeSubsumed options.settings.verbose report.designer batch.subsumed converted =
        (.ok report.removed, last) ∧
      last.tree = after ∧ report.primary = batch.primary.path ∧
      report.squashed = batch.all.map (·.id) := by
  cases course with
  | @done start kept written converted last designer conversion removed starts keeping writing
      converting removing =>
  refine ⟨start, kept, converted, last, starts, keeping, ?_, removing, rfl, rfl, rfl⟩
  obtain rfl := starts
  have primaryIn : batch.primary ∈ batch.all := List.mem_cons_self
  have listed (migration : StoredMigration) (member : migration ∈ batch.all) :=
    loaded.listed sound entries member
  have entry : Path.IsEntry (sourceName batch.primary.id) := (listed _ primaryIn).isEntry
  have path : batch.primary.path = Path.join options.directory (sourceName batch.primary.id) :=
    (listed _ primaryIn).path
  obtain ⟨reachesWritten, executable, nodesWritten⟩ :=
    loaded.node?_written sound leads entries rfl keeping writing
  -- a conversion writes the same file once more
  have ends := convertIfUnsafe_ends (· = written.tree)
    (fun request tree same => (reads request tree).trans same) rfl converting
  obtain ⟨reachesConverted, others, primary⟩ := node?_of_ends reachesWritten path entry
    ((nodesWritten _).trans (if_pos rfl)) ends
  exact ⟨reachesConverted, fun other differs =>
    (others other differs).trans ((nodesWritten other).trans (if_neg differs)), primary⟩

/-- What was merged is removed, and the oldest migration stays as it was written. -/
theorem Course.node?_primary :
    before.Reaches options.directory place after ∧ report.primary = batch.primary.path ∧
      ∃ lines executable,
        after.node? (place ++ [sourceName batch.primary.id]) =
          some (.file (batch.primary.source.withLines lines).toBytes executable) ∧
        (report.conversion ≠ .converted → lines = batch.merged) ∧
        (report.conversion = .converted → ∃ tree sql,
          Conversion.Generates scripts options.settings
            (.ofListing all batch.primary.id batch.newest.id) tree sql ∧
          lines = Conversion.replaceBoth batch.merged (sql .up) (sql .down)) := by
  obtain ⟨start, kept, converted, last, -, -, conversion, removing, rfl, primary, -⟩ :=
    course.exists_converted reads sound leads entries loaded
  obtain ⟨names, -, reachesLast, removal⟩ := removeSubsumed_eq_ok sound.nested
    (fun migration member => loaded.listed sound entries (List.mem_cons_of_mem _ member))
    (fun migration member => loaded.isFile (List.mem_cons_of_mem _ member)) conversion.reaches
    removing
  obtain ⟨lines, executable, node, content⟩ := conversion.primary
  refine ⟨reachesLast, primary, lines, executable, ?_, content⟩
  rw [removal.cleared.node?_of_not_mem fun member => ?_]
  · exact node
  · obtain ⟨migration, member, isSource | ⟨isDesigner, -⟩⟩ := removal.owned _ member
    · exact loaded.sourceName_ne sound entries member isSource
    · exact loaded.sourceName_ne_designer sound entries List.mem_cons_self _ isDesigner

omit reads sound leads entries loaded course in
/-- The file of the oldest migration, as its path leads to it. -/
theorem read_of_reaches {after : FileTree} {content : Bytes} {executable : Bool}
    {migration : StoredMigration} {directory : Path}
    (reaches : before.Reaches directory place after)
    (path : migration.path = Path.join directory (sourceName migration.id))
    (entry : Path.IsEntry (sourceName migration.id))
    (isFile : before.isFile migration.path = true)
    (node : after.node? (place ++ [sourceName migration.id]) = some (.file content executable)) :
    after.read migration.path = .ok content := by
  rw [path] at isFile ⊢
  obtain ⟨found, resolved, -⟩ := FileTree.exists_of_isFile isFile
  obtain ⟨checked, short⟩ := (reaches.leads.kept reaches.keeps).short entry resolved
  have resolvedAfter := (reaches.leads.resolve_join_iff entry
    (fun target isLink => by rw [node] at isLink; cases isLink)).2 ⟨checked, short, rfl⟩
  rw [FileTree.read_of_resolve resolvedAfter, node]

/-- What a squash that succeeds leaves in the oldest migration, which was the first of those it was
asked to merge. -/
theorem Course.read_primary {first : Migration} {rest : List Migration}
    (given : migrations options before = first :: rest) :
    before.source? report.primary = some first.source ∧ ∃ lines,
      after.read report.primary = .ok (first.source.withLines lines).toBytes ∧
      (report.conversion ≠ .converted → lines = mergeInto first.source.lines (first :: rest)) ∧
      (report.conversion = .converted → ∃ tree sql,
        Conversion.Generates scripts options.settings
          (.ofListing all first.id (rest.getLast?.getD first).id) tree sql ∧
        lines = Conversion.replaceBoth (mergeInto first.source.lines (first :: rest))
          (sql .up) (sql .down)) := by
  have primaryIn : batch.primary ∈ batch.all := List.mem_cons_self
  have listed := loaded.listed sound entries primaryIn
  obtain ⟨reaches, primary, lines, executable, node, unconverted, replaced⟩ :=
    course.node?_primary reads sound leads entries loaded
  have content := read_of_reaches reaches listed.path listed.isEntry (loaded.isFile primaryIn) node
  obtain ⟨rfl, rfl⟩ := List.cons.inj (loaded.migrations.trans given)
  rw [show batch.newest.id = _ from congrArg Migration.id (batch.map_newest (·.toMigration)).symm]
    at replaced
  rw [primary]
  exact ⟨loaded.sources _ primaryIn, lines, content, unconverted, replaced⟩

end MigrationSquash.Squash
