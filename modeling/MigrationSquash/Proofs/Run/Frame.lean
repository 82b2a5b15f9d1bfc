import Mathlib.Data.List.Nodup
import MigrationSquash.Proofs.Run.Kept

/-!
# What a squash changes

A squash that succeeds changes the files of the migrations that it was asked to merge and no other
file: the source file of the oldest one stays, the other source files go, and of the designer files
only the kept one is left.  What it reports as removed is what is gone, in the order of the
migrations, but for the designer file that was moved.
-/

set_option autoImplicit false

namespace MigrationSquash

open MigrationFile (sourceName)
open Path (join)

/-- A part of a list without doubles is what the list has of it. -/
theorem eq_filter_of_sublist {α : Type} {part whole : List α} (keep : α → Bool)
    (ordered : part.Sublist whole) (distinct : whole.Nodup)
    (members : ∀ item ∈ whole, item ∈ part ↔ keep item = true) : part = whole.filter keep := by
  induction ordered with
  | slnil => rfl
  | @cons part whole first ordered ih =>
      obtain ⟨fresh, distinct⟩ := List.nodup_cons.1 distinct
      have dropped : keep first ≠ true := fun kept =>
        fresh (ordered.subset ((members first List.mem_cons_self).2 kept))
      rw [List.filter_cons_of_neg dropped]
      exact ih distinct fun item member => members item (List.mem_cons_of_mem _ member)
  | @cons_cons part whole first ordered ih =>
      obtain ⟨fresh, distinct⟩ := List.nodup_cons.1 distinct
      rw [List.filter_cons_of_pos ((members first List.mem_cons_self).1 List.mem_cons_self)]
      congr 1
      refine ih distinct fun item member => ?_
      rw [← members item (List.mem_cons_of_mem _ member), List.mem_cons]
      exact ⟨Or.inr, fun inPart => inPart.resolve_left fun same => fresh (same ▸ member)⟩

namespace Squash

variable {scripts : ScriptSource} {options : SquashOptions} {batch : Batch} {place : Place}
  {before : FileTree}

/-- The names of the files of migrations, in the order of the migrations. -/
def fileNames (files : List MigrationFile) : List Text :=
  files.flatMap fun file => [sourceName file.id, Designer.fileName file.id]

/-- What a squash changes in a directory, and what it reports of it. -/
structure Frame (directory : Path) (place : Place) (first : MigrationFile)
    (rest : List MigrationFile) (report : SquashReport) (before after : FileTree) : Prop where
  spared : ∀ other, (∀ name ∈ fileNames (first :: rest), other ≠ place ++ [name]) →
    after.node? other = before.node? other
  paths : ∀ file ∈ first :: rest, file.path = join directory (sourceName file.id)
  primary : after.HoldsFile (place ++ [sourceName first.id])
  merged : ∀ file ∈ rest, after.node? (place ++ [sourceName file.id]) = none
  designers : ∀ file ∈ first :: rest,
    after.isFile (join directory (Designer.fileName file.id)) = true ↔
      report.designer = some (join directory (Designer.fileName file.id))
  designer : ∀ path, report.designer = some path →
    path = join directory (Designer.fileName first.id)
  removed : report.removed = ((fileNames (first :: rest)).filter fun name =>
    (before.node? (place ++ [name])).isSome && (after.node? (place ++ [name])).isNone &&
      name != Designer.fileName (rest.getLast?.getD first).id).map (join directory)
  once : report.removed.Nodup
  squashed : report.squashed = (first :: rest).map (·.id)

/-! ## The designer file that is kept -/

/-- What keeping a designer file leaves among entries that are no links: nothing has changed, or that
of the newest migration or else of the oldest one bears the name of the oldest one. -/
inductive Keeping (directory : Path) (place : Place) (batch : Batch) (tree : FileTree) :
    Option Path → FileTree → Prop
  | nothing (absent : batch.designer = none) : Keeping directory place batch tree none tree
  | adopted {after : FileTree} (name : Text)
      (source : name = Designer.fileName batch.newest.id ∨
        batch.newest.file.designer = none ∧ name = Designer.fileName batch.primary.id)
      (checked : FileTree.checkPath (join directory (Designer.fileName batch.primary.id)) = .ok ())
      (short : Text.width (Designer.fileName batch.primary.id) ≤ FileTree.nameLimit)
      (file : after.HoldsFile (place ++ [Designer.fileName batch.primary.id]))
      (gone : name ≠ Designer.fileName batch.primary.id → after.node? (place ++ [name]) = none)
      (others : ∀ other, other ≠ place ++ [name] →
        other ≠ place ++ [Designer.fileName batch.primary.id] →
        after.node? other = tree.node? other) :
      Keeping directory place batch tree
        (some (join directory (Designer.fileName batch.primary.id))) after

theorem keeping_of_keepDesigner {world after : World} {kept : Option Path}
    (hosts : world.tree.Hosts options.directory place)
    (listed : ∀ migration ∈ batch.all, migration.file.ListedIn world.tree options.directory)
    (ran : keepDesigner options batch world = (.ok kept, after)) :
    Keeping options.directory place batch world.tree kept after.tree := by
  rcases keepDesigner_cases listed ran with
    ⟨absent, same, unchanged⟩ | ⟨migration, member, outcome, designer, isFile, mapped, adopts⟩
  · obtain rfl := Except.ok.inj same
    rw [unchanged]
    exact .nothing absent
  · have entry := MigrationFile.isEntry_designer (listed migration member).isEntry
    have targetEntry := MigrationFile.isEntry_designer (listed _ List.mem_cons_self).isEntry
    generalize after.tree = last at adopts ⊢
    cases outcome with
    | error failure => cases mapped
    | ok target =>
        obtain rfl := Except.ok.inj mapped
        obtain ⟨checked, short, file, gone, others⟩ :=
          adopts.nodes hosts entry targetEntry isFile
        obtain rfl : target = join options.directory (Designer.fileName batch.primary.id) := by
          cases adopts
          rfl
        refine .adopted _ ?_ checked short file gone others
        rcases Option.or_eq_some_iff.1 designer with newest | ⟨none, own⟩
        · have newestListed := listed _ batch.newest_mem
          exact Or.inl ((Path.join_inj entry
            (MigrationFile.isEntry_designer newestListed.isEntry)).1
              (newestListed.designer _ newest).1)
        · exact Or.inr ⟨none, (Path.join_inj entry targetEntry).1
            ((listed _ List.mem_cons_self).designer _ own).1⟩

theorem Keeping.eq_of_some {directory : Path} {tree after : FileTree} {path : Path}
    (keeping : Keeping directory place batch tree (some path) after) :
    path = join directory (Designer.fileName batch.primary.id) := by
  cases keeping
  rfl

/-- An entry with another name than the kept designer file stays as it was, unless it is the
designer file of the newest migration and was moved. -/
theorem Keeping.node?_cases {directory : Path} {tree after : FileTree} {kept : Option Path}
    (keeping : Keeping directory place batch tree kept after) {name : Text}
    (differs : name ≠ Designer.fileName batch.primary.id) :
    after.node? (place ++ [name]) = tree.node? (place ++ [name]) ∨
      name = Designer.fileName batch.newest.id ∧ after.node? (place ++ [name]) = none := by
  cases keeping with
  | nothing absent => exact Or.inl rfl
  | adopted moved source checked short file gone others =>
      by_cases same : name = moved
      · subst same
        exact Or.inr ⟨source.resolve_right fun own => differs own.2, gone differs⟩
      · refine Or.inl (others _ ?_ ?_) <;>
          simpa only [ne_eq, List.append_cancel_left_eq, List.cons.injEq, and_true]

/-! ## Names of files -/

theorem mem_fileNames {files : List MigrationFile} {name : Text} :
    name ∈ fileNames files ↔
      ∃ file ∈ files, name = sourceName file.id ∨ name = Designer.fileName file.id := by
  simp [fileNames]

theorem sourceName_of_designer {id other : MigrationId}
    (same : Designer.fileName id = Designer.fileName other) : sourceName id = sourceName other :=
  congrArg (· ++ MigrationFile.sourceSuffix) (List.append_cancel_right same)

section

variable (loaded : Loaded options before batch) (sound : before.Sound)
  (entries : before.entries options.directory = before.entriesAt place)
include loaded sound entries

theorem Loaded.isEntry_designer {migration : StoredMigration} (member : migration ∈ batch.all) :
    Path.IsEntry (Designer.fileName migration.id) :=
  MigrationFile.isEntry_designer (loaded.listed sound entries member).isEntry

theorem Loaded.designer_ne {migration : StoredMigration} (member : migration ∈ batch.subsumed) :
    Designer.fileName migration.id ≠ Designer.fileName batch.primary.id := fun same =>
  loaded.sourceName_ne sound entries member (sourceName_of_designer same).symm

theorem Loaded.nodup_fileNames : (fileNames (batch.all.map (·.file))).Nodup := by
  have distinct := loaded.distinct sound entries
  rw [List.Nodup, List.pairwise_map] at distinct
  rw [fileNames, List.flatMap_map, List.nodup_flatMap]
  constructor
  · intro migration member
    refine List.nodup_cons.2 ⟨fun same => ?_, List.nodup_singleton _⟩
    exact loaded.sourceName_ne_designer sound entries member _ (List.mem_singleton.1 same)
  · refine distinct.imp_of_mem fun {first second} firstIn secondIn differ name inFirst inSecond => ?_
    simp only [List.mem_cons, List.not_mem_nil, or_false] at inFirst inSecond
    rcases inFirst with rfl | rfl <;> rcases inSecond with same | same
    · exact differ same
    · exact loaded.sourceName_ne_designer sound entries firstIn _ same
    · exact loaded.sourceName_ne_designer sound entries secondIn _ same.symm
    · exact differ (sourceName_of_designer same)

end

/-! ## What the steps leave -/

section

variable {designer : Option Path} {kept : FileTree} {name : Text}
  (keeping : Keeping options.directory place batch before designer kept)
include keeping

/-- The designer file of the newest migration is moved, unless it bears the right name already. -/
theorem Keeping.node?_newest (loaded : Loaded options before batch)
    (isFile : before.isFile
      (join options.directory (Designer.fileName batch.newest.id)) = true)
    (differs : Designer.fileName batch.newest.id ≠ Designer.fileName batch.primary.id) :
    kept.node? (place ++ [Designer.fileName batch.newest.id]) = none := by
  have newest := Directory.designer_of_mem (loaded.mem_migrations batch.newest_mem) isFile
  cases keeping with
  | nothing absent =>
      rw [Batch.designer, newest] at absent
      cases absent
  | adopted moved source checked short file gone others =>
      rcases source with rfl | ⟨none, -⟩
      · exact gone differs
      · rw [newest] at none
        cases none

theorem Keeping.unlinked
    (plain : ∀ name target, before.node? (place ++ [name]) ≠ some (.link target)) (name : Text)
    (target : Path) : kept.node? (place ++ [name]) ≠ some (.link target) := by
  intro isLink
  by_cases own : name = Designer.fileName batch.primary.id
  · subst own
    cases keeping with
    | nothing absent => exact plain _ target isLink
    | adopted moved source checked short isFile vacated others =>
        obtain ⟨content, executable, node⟩ := isFile
        rw [node] at isLink
        cases isLink
  · rcases keeping.node?_cases own with same | ⟨-, gone⟩
    · exact plain name target (same.symm.trans isLink)
    · rw [gone] at isLink
      cases isLink

theorem Keeping.absent_or_newest (gone : kept.node? (place ++ [name]) = none) :
    before.node? (place ++ [name]) = none ∨ name = Designer.fileName batch.newest.id := by
  by_cases own : name = Designer.fileName batch.primary.id
  · subst own
    cases keeping with
    | nothing absent => exact Or.inl gone
    | adopted moved source checked short isFile vacated others =>
        obtain ⟨content, executable, node⟩ := isFile
        rw [node] at gone
        cases gone
  · rcases keeping.node?_cases own with same | ⟨newest, -⟩
    · exact Or.inl (same.symm.trans gone)
    · exact Or.inr newest

end

section

variable {report : SquashReport} {all : List MigrationFile} {names : List Text}
  {designer : Option Path} {kept converted after : FileTree} {name : Text}

theorem Converted.node?_of_ne
    (conversion : Converted scripts options all batch place report before kept converted)
    (differs : name ≠ sourceName batch.primary.id) :
    converted.node? (place ++ [name]) = kept.node? (place ++ [name]) :=
  conversion.others _ fun same =>
    differs (List.singleton_inj.1 (List.append_cancel_left same))

theorem Converted.unlinked
    (conversion : Converted scripts options all batch place report before kept converted)
    (plain : ∀ name target, kept.node? (place ++ [name]) ≠ some (.link target)) (name : Text)
    (target : Path) : converted.node? (place ++ [name]) ≠ some (.link target) := by
  intro isLink
  by_cases own : name = sourceName batch.primary.id
  · obtain ⟨lines, executable, node, -⟩ := conversion.primary
    rw [own, node] at isLink
    cases isLink
  · exact plain name target ((conversion.node?_of_ne own).symm.trans isLink)

theorem Removal.ordered_fileNames
    (removal : Removal options.directory place designer batch.subsumed names converted after) :
    names.Sublist (fileNames (batch.all.map (·.file))) := by
  refine removal.ordered.trans ?_
  rw [fileNames, List.flatMap_map, Batch.all, List.flatMap_cons]
  exact List.sublist_append_right _ _

variable (loaded : Loaded options before batch) (sound : before.Sound)
  (entries : before.entries options.directory = before.entriesAt place)
  (removal : Removal options.directory place designer batch.subsumed names converted after)
include loaded sound entries removal

/-- No file of the oldest migration is removed. -/
theorem Removal.ne_primary (member : name ∈ names) :
    name ≠ sourceName batch.primary.id ∧ name ≠ Designer.fileName batch.primary.id := by
  obtain ⟨migration, subsumed, rfl | ⟨rfl, -⟩⟩ := removal.owned name member
  · exact ⟨(loaded.sourceName_ne sound entries subsumed).symm,
      loaded.sourceName_ne_designer sound entries (List.mem_cons_of_mem _ subsumed) _⟩
  · exact ⟨(loaded.sourceName_ne_designer sound entries List.mem_cons_self _).symm,
      loaded.designer_ne sound entries subsumed⟩

theorem Removal.isEntry (member : name ∈ names) : Path.IsEntry name := by
  obtain ⟨migration, subsumed, rfl | ⟨rfl, -⟩⟩ := removal.owned name member
  · exact (loaded.listed sound entries (List.mem_cons_of_mem _ subsumed)).isEntry
  · exact loaded.isEntry_designer sound entries (List.mem_cons_of_mem _ subsumed)

variable (keeping : Keeping options.directory place batch before designer kept)
  (conversion : Converted scripts options all batch place report before kept converted)
include keeping conversion

/-- What is removed was there and is gone, and it is not the designer file of the newest migration,
which was moved before. -/
theorem Removal.of_mem (member : name ∈ names) :
    (before.node? (place ++ [name])).isSome = true ∧ after.node? (place ++ [name]) = none ∧
      name ≠ Designer.fileName batch.newest.id := by
  obtain ⟨noSource, noDesigner⟩ := removal.ne_primary loaded sound entries member
  have present := removal.cleared.present name member
  rw [conversion.node?_of_ne noSource] at present
  have same := (keeping.node?_cases noDesigner).resolve_right fun moved => by
    rw [moved.2] at present
    cases present
  refine ⟨same ▸ present, removal.cleared.gone name member, ?_⟩
  rintro rfl
  obtain ⟨migration, subsumed, isSource | ⟨isDesigner, owned⟩⟩ := removal.owned _ member
  · exact loaded.sourceName_ne_designer sound entries (List.mem_cons_of_mem _ subsumed) _
      isSource.symm
  · obtain ⟨own, isOwn⟩ := Option.isSome_iff_exists.1 owned
    obtain ⟨rfl, isFile⟩ :=
      (loaded.listed sound entries (List.mem_cons_of_mem _ subsumed)).designer own isOwn
    change before.isFile (join options.directory (Designer.fileName migration.id)) = true at isFile
    rw [← isDesigner] at isFile
    rw [keeping.node?_newest loaded isFile noDesigner] at present
    cases present

omit loaded sound entries in
/-- What was there and is gone was removed, unless it is the designer file that was moved. -/
theorem Removal.mem_of_gone
    (present : (before.node? (place ++ [name])).isSome = true)
    (gone : after.node? (place ++ [name]) = none)
    (notNewest : name ≠ Designer.fileName batch.newest.id) : name ∈ names := by
  by_contra absent
  rw [removal.cleared.node?_of_not_mem absent] at gone
  by_cases own : name = sourceName batch.primary.id
  · obtain ⟨lines, executable, node, -⟩ := conversion.primary
    rw [own, node] at gone
    cases gone
  · rw [conversion.node?_of_ne own] at gone
    rcases keeping.absent_or_newest gone with missing | newest
    · rw [missing] at present
      cases present
    · exact notNewest newest

theorem Removal.eq_filter : names = (fileNames (batch.all.map (·.file))).filter fun name =>
    (before.node? (place ++ [name])).isSome && (after.node? (place ++ [name])).isNone &&
      name != Designer.fileName batch.newest.id := by
  refine eq_filter_of_sublist _ removal.ordered_fileNames
    (loaded.nodup_fileNames sound entries) fun name _ => ?_
  simp only [Bool.and_eq_true, Option.isNone_iff_eq_none, bne_iff_ne, and_assoc]
  constructor
  · exact removal.of_mem loaded sound entries keeping conversion
  · rintro ⟨present, gone, notNewest⟩
    exact removal.mem_of_gone keeping conversion present gone notNewest

omit loaded sound entries in
/-- An entry that is not one of the files of the migrations stays as it was. -/
theorem Removal.spares {other : Place}
    (spared : ∀ name ∈ fileNames (batch.all.map (·.file)), other ≠ place ++ [name]) :
    after.node? other = before.node? other := by
  have names (migration : StoredMigration) (member : migration ∈ batch.all) :
      other ≠ place ++ [sourceName migration.id] ∧
        other ≠ place ++ [Designer.fileName migration.id] :=
    have inFiles := List.mem_map_of_mem (f := StoredMigration.file) member
    ⟨spared _ (mem_fileNames.2 ⟨_, inFiles, Or.inl rfl⟩),
      spared _ (mem_fileNames.2 ⟨_, inFiles, Or.inr rfl⟩)⟩
  obtain ⟨noSource, noDesigner⟩ := names _ List.mem_cons_self
  rw [removal.cleared.spared other fun name member => spared name
      (removal.ordered_fileNames.subset member), conversion.others other noSource]
  cases keeping with
  | nothing absent => rfl
  | adopted moved source checked short file gone others =>
      refine others other ?_ noDesigner
      rcases source with rfl | ⟨-, rfl⟩
      · exact (names _ batch.newest_mem).2
      · exact noDesigner

variable (hosts : before.Hosts options.directory place)
  (reaches : before.Reaches options.directory place after)
include hosts reaches

omit loaded sound entries reaches in
theorem Removal.unlinked (name : Text) (target : Path) :
    converted.node? (place ++ [name]) ≠ some (.link target) ∧
      after.node? (place ++ [name]) ≠ some (.link target) := by
  have plain := conversion.unlinked (keeping.unlinked hosts.unlinked) name target
  refine ⟨plain, ?_⟩
  rcases removal.cleared.node?_cases (place ++ [name]) with gone | same
  · rw [gone]
    exact nofun
  · rwa [same]

/-- The designer file of a migration that was merged into another is not left. -/
theorem Removal.not_isFile_designer {migration : StoredMigration}
    (subsumed : migration ∈ batch.subsumed) :
    after.isFile (join options.directory (Designer.fileName migration.id)) ≠ true := by
  have member : migration ∈ batch.all := List.mem_cons_of_mem _ subsumed
  have entry := loaded.isEntry_designer sound entries member
  have unlinked := removal.unlinked keeping conversion hosts (Designer.fileName migration.id)
  have differs := loaded.designer_ne sound entries subsumed
  intro left
  obtain ⟨checked, short, file⟩ :=
    (reaches.leads.isFile_join_iff entry fun target => (unlinked target).2).1 left
  have present : after.node? (place ++ [Designer.fileName migration.id]) ≠ none := by
    obtain ⟨content, executable, node⟩ := file
    rw [node]
    exact nofun
  have sameConverted := (removal.cleared.node?_cases _).resolve_left present
  have sameKept := conversion.node?_of_ne
    (loaded.sourceName_ne_designer sound entries List.mem_cons_self migration.id).symm
  rw [sameConverted, sameKept] at present
  have same := (keeping.node?_cases differs).resolve_right fun gone => present gone.2
  -- it was there before the run, so it was listed and is removed
  have isFile := (hosts.leads.isFile_join_iff entry (hosts.unlinked _)).2
    ⟨checked, short, by rwa [FileTree.HoldsFile, sameConverted, sameKept, same] at file⟩
  have own := Directory.designer_of_mem (loaded.mem_migrations member) isFile
  have notKept : designer.any (Path.same (join options.directory
      (Designer.fileName migration.id))) = false := by
    cases keeping with
    | nothing absent => rfl
    | adopted =>
        refine (Bool.not_eq_true _).mp fun isKept => differs ?_
        exact (Path.same_join_iff entry
          (loaded.isEntry_designer sound entries List.mem_cons_self)).1 isKept
  have gone := removal.designers migration subsumed _ own notKept fun target => (unlinked target).1
  rw [← sameKept, ← sameConverted] at present
  exact present gone

/-- A designer file that is left is the one that is kept. -/
theorem Removal.isFile_designer_iff {migration : StoredMigration} (member : migration ∈ batch.all) :
    after.isFile (join options.directory (Designer.fileName migration.id)) = true ↔
      designer = some (join options.directory (Designer.fileName migration.id)) := by
  have primaryEntry := loaded.isEntry_designer sound entries List.mem_cons_self
  rcases List.mem_cons.1 member with rfl | subsumed
  · have sameConverted : after.node? (place ++ [Designer.fileName batch.primary.id]) = _ :=
      removal.cleared.node?_of_not_mem fun member =>
        (removal.ne_primary loaded sound entries member).2 rfl
    have noSource := (loaded.sourceName_ne_designer sound entries member batch.primary.id).symm
    rw [conversion.node?_of_ne noSource] at sameConverted
    rw [reaches.leads.isFile_join_iff primaryEntry
      fun target => (removal.unlinked keeping conversion hosts _ target).2, FileTree.HoldsFile,
      sameConverted]
    cases keeping with
    | nothing absent =>
        refine iff_of_false (fun isFile => ?_) (Option.some_ne_none _).symm
        have own := Directory.designer_of_mem (loaded.mem_migrations member)
          ((hosts.leads.isFile_join_iff primaryEntry (hosts.unlinked _)).2 isFile)
        rw [Batch.designer, own, Option.or_eq_none_iff] at absent
        cases absent.2
    | adopted moved source checked short file gone others =>
        exact iff_of_true ⟨checked, short, file⟩ rfl
  · refine iff_of_false (removal.not_isFile_designer loaded sound entries keeping conversion hosts
      reaches subsumed) ?_
    intro kept
    cases keeping with
    | nothing absent => cases kept
    | adopted =>
        refine loaded.designer_ne sound entries subsumed ?_
        exact ((Path.join_inj primaryEntry
          (loaded.isEntry_designer sound entries member)).1 (Option.some.inj kept)).symm

end

variable {all : List MigrationFile} {report : SquashReport} {after : FileTree}

theorem Course.frame (reads : ∀ request tree, (scripts request tree).2 = tree)
    (sound : before.Sound) (hosts : before.Hosts options.directory place)
    (entries : before.entries options.directory = before.entriesAt place)
    (loaded : Loaded options before batch)
    (course : Course scripts options all batch before (.ok report) after) :
    Frame options.directory place batch.primary.file (batch.subsumed.map (·.file)) report before
      after := by
  obtain ⟨reachesAfter, -, lines, executable, primary, -⟩ :=
    course.node?_primary reads sound hosts.leads entries loaded
  obtain ⟨start, kept, converted, last, rfl, keepingRun, conversion, removing, rfl, -, squashed⟩ :=
    course.exists_converted reads sound hosts.leads entries loaded
  have listed (migration : StoredMigration) (member : migration ∈ batch.all) :=
    loaded.listed sound entries member
  have keeping := keeping_of_keepDesigner hosts listed keepingRun
  obtain ⟨names, removed, reaches, removal⟩ := removeSubsumed_eq_ok sound.nested
    (fun migration member => listed migration (List.mem_cons_of_mem _ member))
    (fun migration member => loaded.isFile (List.mem_cons_of_mem _ member)) conversion.reaches
    removing
  refine {
    spared := fun other => removal.spares keeping conversion
    paths := fun file member => ?_
    primary := ⟨_, _, primary⟩
    merged := fun file member => ?_
    designers := fun file member => ?_
    designer := fun path isKept => ?_
    removed := ?_
    once := ?_
    squashed := ?_ }
  · obtain ⟨migration, inBatch, rfl⟩ := List.mem_map.1 (show file ∈ batch.all.map (·.file) from member)
    exact (listed migration inBatch).path
  · obtain ⟨migration, subsumed, rfl⟩ := List.mem_map.1 member
    exact removal.cleared.gone _ (removal.sources migration subsumed)
  · obtain ⟨migration, inBatch, rfl⟩ := List.mem_map.1 (show file ∈ batch.all.map (·.file) from member)
    exact removal.isFile_designer_iff loaded sound entries keeping conversion hosts reaches inBatch
  · rw [isKept] at keeping
    exact keeping.eq_of_some
  · rw [batch.map_newest, removed]
    exact congrArg _ (removal.eq_filter loaded sound entries keeping conversion)
  · rw [removed]
    exact removal.cleared.once.map_on fun name nameIn other otherIn same => (Path.join_inj
      (removal.isEntry loaded sound entries nameIn)
      (removal.isEntry loaded sound entries otherIn)).1 same
  · rw [squashed, ← List.map_cons, List.map_map]
    rfl

end Squash

/-- A squash that succeeds changes only the files of the migrations that it was asked to merge.  Of
their source files that of the oldest one is left, of their designer files the one that is reported,
which bears the name of the oldest one; all that is gone is reported as removed, each file once and
in the order of the migrations, but for the designer file that was moved. -/
theorem squash_frame {scripts : ScriptSource}
    (reads : ∀ request tree, (scripts request tree).2 = tree) {options : SquashOptions}
    {before after : World} (sound : before.tree.Sound)
    (unlinked : ∀ entry ∈ before.tree.entries options.directory, ∀ target,
      entry.2 ≠ .link target) {report : SquashReport}
    (ran : squash scripts options before = (.ok (.squashed report), after)) :
    ∃ place first rest, before.tree.resolve options.directory = .ok place ∧
      Squash.selected options before.tree = first :: rest ∧
      Squash.Frame options.directory place first rest report before.tree after.tree := by
  obtain ⟨batch, loaded, course⟩ := Squash.squash_eq_ok ran
  obtain ⟨place, resolved, leads, -, entries⟩ := FileTree.exists_leads_of_isDirectory loaded.opened
  obtain ⟨hosted, hosts, -⟩ := sound.exists_hosts loaded.opened unlinked
  obtain rfl := leads.unique hosts.leads
  refine ⟨place, batch.primary.file, batch.subsumed.map (·.file), resolved, ?_,
    course.frame reads sound hosts entries loaded⟩
  rw [← loaded.files]
  rfl

namespace Sample

/-- The designer file and the source file of a migration. -/
def filesOf (id : MigrationId) : List (Place × Node) :=
  [([directory, Designer.fileName id],
      .file (Text.encodeUtf8 ("partial class ".toList ++ id.name)) false),
    ([directory, sourceName id], .file (Text.encodeUtf8 ("class ".toList ++ id.name)) false)]

def accounts : MigrationId := ⟨"20240101000000".toList, "A".toList⟩

def bookings : MigrationId := ⟨"20240202000000".toList, "B".toList⟩

def carts : MigrationId := ⟨"20240303000000".toList, "C".toList⟩

/-- Three migrations with designer files. -/
def designed : World :=
  .ofTree ⟨([directory], .directory) :: filesOf accounts ++ filesOf bookings ++ filesOf carts, []⟩

def fileOfDesigned (id : MigrationId) : MigrationFile :=
  ⟨id, join directory (sourceName id), some (join directory (Designer.fileName id))⟩

/-- The directory with one migration left and the designer file of the newest one for it. -/
def collected : World :=
  .ofTree ⟨[([directory, sourceName accounts],
      .file (Text.encodeUtf8 "class A\n".toList) false),
    ([directory, Designer.fileName accounts],
      .file (Text.encodeUtf8 "partial class A\n".toList) false),
    ([directory], .directory)], []⟩

def collection : SquashReport where
  primary := join directory (sourceName accounts)
  designer := some (join directory (Designer.fileName accounts))
  squashed := [accounts, bookings, carts]
  removed := [join directory (sourceName bookings), join directory (Designer.fileName bookings),
    join directory (sourceName carts)]
  hazards := []
  conversion := .notNeeded

theorem entries_designed : designed.tree.entries directory =
    (filesOf accounts ++ filesOf bookings ++ filesOf carts).map fun entry =>
      (entry.1.getLast?.getD [], entry.2) := by
  have resolved : designed.tree.resolve directory = .ok [directory] := by rfl
  have opened : designed.tree.node? [directory] = some .directory := by rfl
  rw [FileTree.entries, resolved]
  exact (if_pos opened).trans (List.mergeSort_of_pairwise (by decide))

theorem migrations_designed : Directory.migrations designed.tree directory =
    [fileOfDesigned accounts, fileOfDesigned bookings, fileOfDesigned carts] := by
  rw [Directory.migrations, entries_designed]
  decide +kernel

theorem selected_designed : Squash.selected everything designed.tree =
    [fileOfDesigned accounts, fileOfDesigned bookings, fileOfDesigned carts] := by
  rw [Squash.selected]
  exact (congrArg everything.selection.select migrations_designed).trans (by decide)

theorem squash_designed :
    squash noScripts everything designed = (.ok (.squashed collection), collected) := by
  refine Run.bind_eq_ok_iff.2 ⟨(), designed, rfl, Run.bind_eq_ok_iff.2
    ⟨_, _, Directory.list_eq (by rfl) migrations_designed, ?_⟩⟩
  decide +kernel

theorem sound_designed : designed.tree.Sound where
  nested := FileTree.nested_of_entries (by decide)
  distinct := by decide
  noSlash := by decide

end Sample

/-- Of three migrations with designer files one is left, with the designer file of the newest one. -/
theorem squash_frame_sample :
    Squash.Frame Sample.directory [Sample.directory] (Sample.fileOfDesigned Sample.accounts)
      [Sample.fileOfDesigned Sample.bookings, Sample.fileOfDesigned Sample.carts] Sample.collection
      Sample.designed.tree Sample.collected.tree := by
  have unlinked : ∀ entry ∈ Sample.designed.tree.entries Sample.everything.directory, ∀ target,
      entry.2 ≠ .link target := by
    change ∀ entry ∈ Sample.designed.tree.entries Sample.directory, _
    rw [Sample.entries_designed]
    intro entry member target
    simp only [List.map_append, List.mem_append, Sample.filesOf, List.map_cons, List.map_nil,
      List.mem_cons, List.not_mem_nil, or_false] at member
    rcases member with ((rfl | rfl) | rfl | rfl) | rfl | rfl <;> exact Node.noConfusion
  obtain ⟨place, first, rest, resolved, selected, frame⟩ :=
    squash_frame (fun _ _ => rfl) Sample.sound_designed unlinked Sample.squash_designed
  obtain rfl := Except.ok.inj ((show Sample.designed.tree.resolve Sample.directory =
    .ok [Sample.directory] from rfl).symm.trans resolved)
  obtain ⟨rfl, rfl⟩ := List.cons.inj (Sample.selected_designed.symm.trans selected)
  exact frame

end MigrationSquash
