import MigrationSquash.Proofs.Run.Frame

/-!
# Squashes that are cut short

Wherever a squash ends, no body is lost: either no source file has changed, or the oldest migration
holds the merged source, or that source with both scripts in place of its bodies.  Two things can
break this.  A generator of scripts may change the oldest migration, and the designer file that is
kept may be a link to a source file.
-/

set_option autoImplicit false

namespace MigrationSquash

open Conversion (GeneratesOn)
open MigrationFile (sourceName sourceSuffix)
open Path (join)

variable {scripts : ScriptSource}

/-- Whether a place has the name of a source file that is no designer file. -/
def MigrationFile.isSourceAt (place : Place) : Bool :=
  place.getLast?.any fun name => Text.endsWith sourceSuffix name && !Text.endsWith Designer.suffix name

theorem MigrationFile.isSourceAt_designer (place : Place) (id : MigrationId) :
    isSourceAt (place ++ [Designer.fileName id]) = false := by
  rw [isSourceAt, List.getLast?_concat, Option.any_some, endsWith_designer, Bool.not_true,
    Bool.and_false]

theorem MigrationFile.isSourceAt_sourceName (place : Place) {id : MigrationId}
    (noDesigner : Text.endsWith Designer.suffix (sourceName id) = false) :
    isSourceAt (place ++ [sourceName id]) = true := by
  have cut : Text.before? sourceSuffix (sourceName id) = some id.toText :=
    Text.before?_eq_some_iff.2 rfl
  rw [isSourceAt, List.getLast?_concat, Option.any_some, noDesigner, Text.endsWith, cut]
  rfl

/-- A file with the given source is at the place. -/
def FileTree.HoldsSource (tree : FileTree) (place : Place) (source : Source) : Prop :=
  ∃ executable, tree.node? place = some (.file source.toBytes executable)

namespace Conversion

variable {settings : Settings} {range : ScriptRange} {source : Source} {lines : List Text}
  {place : Place} {tree after : FileTree}

/-- A file with the given lines is at the place, or one with both scripts in place of their bodies. -/
def LeavesAt (scripts : ScriptSource) (settings : Settings) (range : ScriptRange) (source : Source)
    (lines : List Text) (place : Place) (tree : FileTree) : Prop :=
  tree.HoldsSource place (source.withLines lines) ∨
    ∃ sql, GeneratesOn (·.HoldsSource place (source.withLines lines)) scripts settings range sql ∧
      tree.HoldsSource place (source.withLines (replaceBoth lines (sql .up) (sql .down)))

theorem LeavesAt.of_same (leaves : LeavesAt scripts settings range source lines place tree)
    (same : after.node? place = tree.node? place) :
    LeavesAt scripts settings range source lines place after := by
  unfold LeavesAt FileTree.HoldsSource
  rw [same]
  exact leaves

/-- Wherever a conversion ends, the migration is left whole. -/
theorem Ends.leavesAt {migration : StoredMigration} {result : Except Failure Conversion}
    (ends : Ends (·.HoldsSource place (migration.source.withLines lines)) scripts settings migration
      range lines result after) :
    LeavesAt scripts settings range migration.source lines place after := by
  cases ends with
  | kept notConverted holds => exact Or.inl holds
  | notWritten error holds generates => exact Or.inl holds
  | @converted tree _ sql holds generates written =>
      rcases FileTree.node?_of_write written place with same | replaced
      · exact .of_same (Or.inl holds) same
      · exact Or.inr ⟨sql, generates, replaced⟩

end Conversion

namespace Squash

variable {options : SquashOptions} {batch : Batch} {place : Place}

/-- The designer file that is kept: that of the newest migration, or else of the oldest one. -/
def keptDesigner (options : SquashOptions) (tree : FileTree) : Option Path :=
  ((selected options tree).getLast?.bind (·.designer)).or
    ((selected options tree).head?.bind (·.designer))

/-- The merged source was written into the oldest of the migrations, as the tree `unwritten` was, and
is still there, or the same with both scripts in place of its bodies. -/
structure HoldsMerged (scripts : ScriptSource) (options : SquashOptions) (first : Migration)
    (rest : List Migration) (before unwritten after : FileTree) : Prop where
  given : migrations options before = first :: rest
  written : ∃ tree, unwritten.write (join options.directory (sourceName first.id))
    (first.source.withLines (mergeInto first.source.lines (first :: rest))).toBytes = .ok tree
  leaves : ∃ place, before.resolve (join options.directory (sourceName first.id)) = .ok place ∧
    Conversion.LeavesAt scripts options.settings
      (.ofListing (Directory.migrations before options.directory) first.id
        (rest.getLast?.getD first).id)
      first.source (mergeInto first.source.lines (first :: rest)) place after

section

variable {before : FileTree} (loaded : Loaded options before batch)
include loaded

theorem Loaded.keptDesigner_eq : keptDesigner options before = batch.designer := by
  rw [keptDesigner, ← loaded.files, Batch.all, List.map_cons, List.head?_cons, List.getLast?_cons,
    batch.map_newest]
  rfl

variable (sound : before.Sound) (leads : before.Leads options.directory place)
  (entries : before.entries options.directory = before.entriesAt place)
include sound leads entries

theorem Loaded.resolve_path {migration : StoredMigration} (member : migration ∈ batch.all) :
    before.resolve migration.path = .ok (place ++ [sourceName migration.id]) := by
  have listed := loaded.listed sound entries member
  have path : migration.path = join options.directory (sourceName migration.id) := listed.path
  have isFile := loaded.isFile member
  obtain ⟨content, executable, node⟩ := loaded.holdsFile sound entries member
  rw [path] at isFile ⊢
  obtain ⟨found, resolved, -⟩ := FileTree.exists_of_isFile isFile
  obtain ⟨checked, short⟩ := leads.short listed.isEntry resolved
  have plain (target : Path) : before.node? (place ++ [sourceName migration.id]) ≠
      some (.link target) := by
    rw [node]
    exact nofun
  exact (leads.resolve_join_iff listed.isEntry plain).2 ⟨checked, short, rfl⟩

/-- Keeping a designer file changes no source file, wherever it ends. -/
theorem Loaded.spares_sources
    (designer : ∀ path ∈ keptDesigner options before, ∀ place, before.resolve path = .ok place →
      MigrationFile.isSourceAt place = false)
    {start after : World} {result : Except Failure (Option Path)} (starts : start.tree = before)
    (keeping : keepDesigner options batch start = (result, after)) (other : Place)
    (isSource : MigrationFile.isSourceAt other = true) :
    after.tree.node? other = before.node? other := by
  subst starts
  have listed (migration : StoredMigration) (member : migration ∈ batch.all) :=
    loaded.listed sound entries member
  have noDesigner (migration : StoredMigration) (_ : migration ∈ batch.all) :
      other ≠ place ++ [Designer.fileName migration.id] := by
    rintro rfl
    rw [MigrationFile.isSourceAt_designer] at isSource
    cases isSource
  rcases keepDesigner_spares listed keeping sound.nested leads other noDesigner with
    same | ⟨path, isDesigner, led, -⟩
  · exact same
  · rw [← loaded.keptDesigner_eq] at isDesigner
    rw [designer path isDesigner other led] at isSource
    cases isSource

/-- A conversion of the merged source leaves it whole in the oldest migration, if the generator leaves
that file alone. -/
theorem Loaded.leavesAt_of_convert
    (spares : ∀ request tree, (scripts request tree).2.node?
      (place ++ [sourceName batch.primary.id]) =
        tree.node? (place ++ [sourceName batch.primary.id]))
    {all : List MigrationFile} {start kept written after : World} {kept? : Option Path}
    {result : Except Failure Conversion} (starts : start.tree = before)
    (keeping : keepDesigner options batch start = (.ok kept?, kept))
    (writing : kept.tree.write batch.primary.path
      (batch.primary.source.withLines batch.merged).toBytes = .ok written.tree)
    (converting : convertIfUnsafe scripts options all batch batch.merged
      (Hazard.find (Text.joinLines batch.merged)) written = (result, after)) :
    Conversion.LeavesAt scripts options.settings (.ofListing all batch.primary.id batch.newest.id)
      batch.primary.source batch.merged (place ++ [sourceName batch.primary.id]) after.tree := by
  obtain ⟨-, executable, nodes⟩ :=
    loaded.node?_written sound leads entries starts keeping writing
  refine (convertIfUnsafe_ends (·.HoldsSource (place ++ [sourceName batch.primary.id])
    (batch.primary.source.withLines batch.merged)) (fun request tree holds => ?_)
      ⟨executable, (nodes _).trans (if_pos rfl)⟩ converting).leavesAt
  unfold FileTree.HoldsSource
  rw [spares]
  exact holds

omit leads in
/-- A removal of the other migrations leaves the oldest one alone, wherever it ends. -/
theorem Loaded.node?_of_remove {verbose : Bool} {kept : Option Path} {start after : World}
    {result : Except Failure (List Path)}
    (removing : removeSubsumed verbose kept batch.subsumed start = (result, after)) :
    after.tree.node? (place ++ [sourceName batch.primary.id]) =
      start.tree.node? (place ++ [sourceName batch.primary.id]) := by
  have spares : Run.Spares (place ++ [sourceName batch.primary.id])
      (removeSubsumed verbose kept batch.subsumed) :=
    spares_removeSubsumed
      (fun migration member => loaded.listed sound entries (List.mem_cons_of_mem _ member))
      (fun migration member => ⟨loaded.sourceName_ne sound entries member,
        loaded.sourceName_ne_designer sound entries List.mem_cons_self migration.id⟩) place
  have same := spares start
  rwa [removing] at same

/-- Once the oldest migration is written it holds the merged source, or that with both scripts in
place of its bodies, whatever happens to other files. -/
theorem Loaded.holdsMerged
    (spares : ∀ request tree, (scripts request tree).2.node?
      (place ++ [sourceName batch.primary.id]) =
        tree.node? (place ++ [sourceName batch.primary.id]))
    {start kept written converted : World} {designer : Option Path}
    {result : Except Failure Conversion} (starts : start.tree = before)
    (keeping : keepDesigner options batch start = (.ok designer, kept))
    (writing : kept.tree.write batch.primary.path
      (batch.primary.source.withLines batch.merged).toBytes = .ok written.tree)
    (converting : convertIfUnsafe scripts options (Directory.migrations before options.directory)
      batch batch.merged (Hazard.find (Text.joinLines batch.merged)) written =
        (result, converted)) {after : FileTree}
    (same : after.node? (place ++ [sourceName batch.primary.id]) =
      converted.tree.node? (place ++ [sourceName batch.primary.id])) :
    HoldsMerged scripts options batch.primary.toMigration
      (batch.subsumed.map (·.toMigration)) before kept.tree after := by
  have leaves := (loaded.leavesAt_of_convert sound leads entries spares starts keeping writing
    converting).of_same same
  rw [show batch.newest.id = _ from
    congrArg Migration.id (batch.map_newest (·.toMigration)).symm] at leaves
  have resolved := loaded.resolve_path sound leads entries List.mem_cons_self
  rw [show batch.primary.path = join options.directory (sourceName batch.primary.id) from
    (loaded.listed sound entries List.mem_cons_self).path] at writing resolved
  exact ⟨loaded.migrations.symm, ⟨_, writing⟩, ⟨_, resolved, leaves⟩⟩

/-- Wherever a squash of loaded migrations ends, no source file has changed or the oldest migration
holds what was merged. -/
theorem Course.unchanged_or_merged
    (designer : ∀ path ∈ keptDesigner options before, ∀ place, before.resolve path = .ok place →
      MigrationFile.isSourceAt place = false)
    (spares : ∀ request tree, (scripts request tree).2.node?
        (place ++ [sourceName batch.primary.id]) =
      tree.node? (place ++ [sourceName batch.primary.id]))
    {result : Except Failure SquashReport} {after : FileTree}
    (course : Course scripts options (Directory.migrations before options.directory) batch before
      result after) :
    ∃ unwritten : FileTree,
      (∀ other, MigrationFile.isSourceAt other = true →
        unwritten.node? other = before.node? other) ∧
      (after = unwritten ∨ HoldsMerged scripts options batch.primary.toMigration
        (batch.subsumed.map (·.toMigration)) before unwritten after) := by
  have unchanged {start kept : World} {outcome : Except Failure (Option Path)}
      (starts : start.tree = before)
      (keeping : keepDesigner options batch start = (outcome, kept)) :=
    loaded.spares_sources sound leads entries designer starts keeping
  cases course with
  | notKept starts keeping => exact ⟨_, unchanged starts keeping, Or.inl rfl⟩
  | notWritten error starts keeping => exact ⟨_, unchanged starts keeping, Or.inl rfl⟩
  | notConverted starts keeping writing converting =>
      exact ⟨_, unchanged starts keeping, Or.inr
        (loaded.holdsMerged sound leads entries spares starts keeping writing converting rfl)⟩
  | notRemoved starts keeping writing converting removing =>
      exact ⟨_, unchanged starts keeping, Or.inr
        (loaded.holdsMerged sound leads entries spares starts keeping writing converting
          (loaded.node?_of_remove sound entries removing))⟩
  | done starts keeping writing converting removing =>
      exact ⟨_, unchanged starts keeping, Or.inr
        (loaded.holdsMerged sound leads entries spares starts keeping writing converting
          (loaded.node?_of_remove sound entries removing))⟩

end

end Squash

/-- Wherever a squash ends, no source file has changed, those of the selected migrations included, or
the oldest of the migrations was written when none had and holds the merged source or that with
both scripts in place of its bodies.  This takes a generator that leaves the oldest migration alone
and a kept designer file that does not lead to a source file. -/
theorem squash_loses_no_body {options : SquashOptions} {before after : World}
    {result : Except Failure SquashOutcome} (sound : before.tree.Sound)
    (designer : ∀ path ∈ Squash.keptDesigner options before.tree, ∀ place,
      before.tree.resolve path = .ok place → MigrationFile.isSourceAt place = false)
    (spares : ∀ file ∈ (Squash.selected options before.tree).head?, ∀ place,
      before.tree.resolve file.path = .ok place → ∀ request tree,
        (scripts request tree).2.node? place = tree.node? place)
    (ran : squash scripts options before = (result, after)) :
    ∃ unwritten : FileTree,
      (∀ place, MigrationFile.isSourceAt place = true →
        unwritten.node? place = before.tree.node? place) ∧
      (∀ file ∈ Squash.selected options before.tree, ∀ place,
        before.tree.resolve file.path = .ok place →
          unwritten.node? place = before.tree.node? place) ∧
      (after.tree = unwritten ∨ ∃ first rest,
        Squash.HoldsMerged scripts options first rest before.tree unwritten after.tree) := by
  rcases Squash.squash_cases ran with ⟨same, -⟩ | ⟨batch, outcome, loaded, course, -⟩
  · exact ⟨before.tree, fun _ _ => rfl, fun _ _ _ _ => rfl, Or.inl same⟩
  · obtain ⟨place, -, leads, -, entries⟩ := FileTree.exists_leads_of_isDirectory loaded.opened
    have inDirectory (migration : StoredMigration) (member : migration ∈ batch.all) :=
      loaded.resolve_path sound leads entries member
    have head : (Squash.selected options before.tree).head? = some batch.primary.file := by
      rw [← loaded.files]
      rfl
    obtain ⟨unwritten, unchanged, left⟩ := course.unchanged_or_merged loaded sound leads entries
      designer (spares _ head _ (inDirectory _ List.mem_cons_self))
    refine ⟨unwritten, unchanged, fun file member other led => ?_, left.imp_right fun merged =>
      ⟨_, _, merged⟩⟩
    rw [← loaded.files] at member
    obtain ⟨migration, inBatch, rfl⟩ := List.mem_map.1 member
    obtain rfl := Except.ok.inj ((inDirectory migration inBatch).symm.trans led)
    exact unchanged _ (MigrationFile.isSourceAt_sourceName place
      (loaded.listed sound entries inBatch).noDesigner)

namespace Sample

/-- Three migrations of which the second cannot be removed. -/
def guarded : World :=
  { designed with
    refusals := [(.remove (join directory (sourceName bookings)), .permissionDenied)] }

/-- The oldest migration is written, and the others are not removed. -/
def stuck : World :=
  { guarded with
    tree := ⟨[
      ([directory, sourceName accounts], .file (Text.encodeUtf8 "class A\n".toList) false),
      ([directory, Designer.fileName accounts],
        .file (Text.encodeUtf8 "partial class A\n".toList) false),
      ([directory], .directory)] ++ filesOf bookings ++
        [([directory, sourceName carts], .file (Text.encodeUtf8 "class C".toList) false)], []⟩ }

theorem squash_guarded : squash noScripts everything guarded =
    (.error (.remove (join directory (sourceName bookings)) .permissionDenied), stuck) := by
  have listed : Directory.list directory guarded = (.ok _, guarded) :=
    Directory.list_eq (by rfl) migrations_designed
  refine (Run.bind_of_ok rfl _).trans ((Run.bind_of_ok listed _).trans ?_)
  decide +kernel

end Sample

/-- A squash that cannot remove a migration has written the oldest one. -/
theorem squash_loses_no_body_sample : ∃ unwritten first rest,
    Squash.HoldsMerged Sample.noScripts Sample.everything first rest Sample.guarded.tree unwritten
      Sample.stuck.tree := by
  have kept : Squash.keptDesigner Sample.everything Sample.guarded.tree =
      some (join Sample.directory (Designer.fileName Sample.carts)) := by
    rw [Squash.keptDesigner, show Squash.selected _ Sample.guarded.tree = _ from
      Sample.selected_designed]
    rfl
  have designer : ∀ path ∈ Squash.keptDesigner Sample.everything Sample.guarded.tree, ∀ place,
      Sample.guarded.tree.resolve path = .ok place →
        MigrationFile.isSourceAt place = false := by
    intro path isKept place led
    obtain rfl := Option.some.inj (kept.symm.trans isKept)
    obtain rfl := Except.ok.inj ((show Sample.guarded.tree.resolve _ =
      .ok [Sample.directory, Designer.fileName Sample.carts] from by decide).symm.trans led)
    decide
  have sound : Sample.guarded.tree.Sound := Sample.sound_designed
  obtain ⟨unwritten, -, unchanged, left⟩ :=
    squash_loses_no_body sound designer (fun _ _ _ _ _ _ => rfl) Sample.squash_guarded
  refine ⟨unwritten, left.resolve_left ?_⟩
  rintro rfl
  -- the oldest migration is not as it was
  have same := unchanged (Sample.fileOfDesigned Sample.accounts)
    (by rw [show Squash.selected _ Sample.guarded.tree = _ from Sample.selected_designed]; simp)
    [Sample.directory, sourceName Sample.accounts] (by decide)
  revert same
  decide

namespace Sample

/-- Two migrations.  The designer file of the newer one is a link to its source file, and the older
one cannot be written. -/
def linked : World where
  tree := ⟨[([directory], .directory),
    ([directory, sourceName accounts], .file (Text.encodeUtf8 "class A".toList) false),
    ([directory, Designer.fileName bookings], .link (sourceName bookings)),
    ([directory, sourceName bookings],
      .file (Text.encodeUtf8 "partial class B".toList) false)], []⟩
  output := []
  warnings := []
  requests := []
  refusals := [(.write (join directory (sourceName accounts)) (Text.encodeUtf8 "class A\n".toList),
    .permissionDenied)]

/-- The newer migration was rewritten as a designer file. -/
def overwritten : World :=
  { linked with
    tree := ⟨[
      ([directory, sourceName bookings],
        .file (Text.encodeUtf8 "partial class A\n".toList) false),
      ([directory], .directory),
      ([directory, sourceName accounts], .file (Text.encodeUtf8 "class A".toList) false),
      ([directory, Designer.fileName accounts], .link (sourceName bookings))], []⟩ }

theorem migrations_linked : Directory.migrations linked.tree directory =
    [⟨accounts, join directory (sourceName accounts), none⟩, fileOfDesigned bookings] := by
  have entries : linked.tree.entries directory = [
      (sourceName accounts, .file (Text.encodeUtf8 "class A".toList) false),
      (Designer.fileName bookings, .link (sourceName bookings)),
      (sourceName bookings, .file (Text.encodeUtf8 "partial class B".toList) false)] := by
    have resolved : linked.tree.resolve directory = .ok [directory] := by rfl
    have opened : linked.tree.node? [directory] = some .directory := by rfl
    rw [FileTree.entries, resolved]
    exact (if_pos opened).trans (List.mergeSort_of_pairwise (by decide))
  rw [Directory.migrations, entries]
  decide +kernel

theorem given_linked : Squash.migrations everything linked.tree =
    [⟨accounts, ⟨["class A".toList], .lineFeed, false⟩⟩,
      ⟨bookings, ⟨["partial class B".toList], .lineFeed, false⟩⟩] := by
  have selected : Squash.selected everything linked.tree =
      [⟨accounts, join directory (sourceName accounts), none⟩, fileOfDesigned bookings] := by
    rw [Squash.selected]
    exact (congrArg everything.selection.select migrations_linked).trans (by decide)
  rw [Squash.migrations, selected]
  decide +kernel

theorem squash_linked : squash noScripts everything linked =
    (.error (.write (join directory (sourceName accounts)) .permissionDenied), overwritten) := by
  have listed : Directory.list directory linked = (.ok _, linked) :=
    Directory.list_eq (by rfl) migrations_linked
  refine (Run.bind_of_ok rfl _).trans ((Run.bind_of_ok listed _).trans ?_)
  decide +kernel

def renamer : Text :=
  "class A \x7b\n    void Up(M m) \x7b\n        m.RenameColumn(\"a\", \"t\", \"b\");\n    \x7d\n\x7d\n".toList

def dropper : Text :=
  "class B \x7b\n    void Up(M m) \x7b\n        m.DropColumn(\"b\", \"t\");\n    \x7d\n\x7d\n".toList

/-- Two migrations that need scripts. -/
def hazardous : World :=
  .ofTree ⟨[([directory], .directory),
    ([directory, sourceName accounts], .file (Text.encodeUtf8 renamer) false),
    ([directory, sourceName bookings], .file (Text.encodeUtf8 dropper) false)], []⟩

/-- A generator that removes both migrations and fails. -/
def clearing : ScriptSource := fun _ tree =>
  (.error (.refused "no".toList), (tree.erase [directory, sourceName accounts]).erase
    [directory, sourceName bookings])

def withProject : SquashOptions :=
  { everything with settings := { everything.settings with project := some "App.csproj".toList } }

/-- Both migrations are gone. -/
def emptied : World where
  tree := ⟨[([directory], .directory)], []⟩
  output := []
  warnings := [
    "Warning: No designer file found for 20240101000000_A".toList,
    "Warning: column 'b' is renamed from 'a' and later dropped (in 't')".toList,
    "Warning: External tool failed: no; leaving 20240101000000_A as C#".toList]
  requests := [⟨"0".toList, bookings.toText, "App.csproj".toList⟩]

theorem squash_hazardous : squash clearing withProject hazardous =
    (.error (.remove (join directory (sourceName bookings)) .notFound), emptied) := by
  have migrations : Directory.migrations hazardous.tree directory =
      [⟨accounts, join directory (sourceName accounts), none⟩,
        ⟨bookings, join directory (sourceName bookings), none⟩] := by
    have entries : hazardous.tree.entries directory = [
        (sourceName accounts, .file (Text.encodeUtf8 renamer) false),
        (sourceName bookings, .file (Text.encodeUtf8 dropper) false)] := by
      have resolved : hazardous.tree.resolve directory = .ok [directory] := by rfl
      have opened : hazardous.tree.node? [directory] = some .directory := by rfl
      rw [FileTree.entries, resolved]
      exact (if_pos opened).trans (List.mergeSort_of_pairwise (by decide))
    rw [Directory.migrations, entries]
    decide +kernel
  have listed : Directory.list directory hazardous = (.ok _, hazardous) :=
    Directory.list_eq (by rfl) migrations
  refine (Run.bind_of_ok rfl _).trans ((Run.bind_of_ok listed _).trans ?_)
  decide +kernel

end Sample

/-- A squash that fails has lost a body if the designer file that is kept led to its source file, or
if the generator of scripts removed the oldest migration. -/
theorem bodies_lost_on_failure :
    (squash Sample.noScripts Sample.everything Sample.linked =
        (.error (.write (join Sample.directory (sourceName Sample.accounts)) .permissionDenied),
          Sample.overwritten) ∧
      Sample.overwritten.tree.node? [Sample.directory, sourceName Sample.bookings] ≠
        Sample.linked.tree.node? [Sample.directory, sourceName Sample.bookings] ∧
      ∀ unwritten first rest, ¬ Squash.HoldsMerged Sample.noScripts Sample.everything first rest
        Sample.linked.tree unwritten Sample.overwritten.tree) ∧
    (squash Sample.clearing Sample.withProject Sample.hazardous =
        (.error (.remove (join Sample.directory (sourceName Sample.bookings)) .notFound),
          Sample.emptied) ∧
      Sample.emptied.tree.node? [Sample.directory, sourceName Sample.bookings] ≠
        Sample.hazardous.tree.node? [Sample.directory, sourceName Sample.bookings] ∧
      ∀ unwritten first rest, ¬ Squash.HoldsMerged Sample.clearing Sample.withProject first rest
        Sample.hazardous.tree unwritten Sample.emptied.tree) := by
  refine ⟨⟨Sample.squash_linked, by decide, ?_⟩, Sample.squash_hazardous, by decide, ?_⟩
  · rintro unwritten first rest ⟨given, -, place, led, ⟨executable, node⟩ | ⟨sql, made, -⟩⟩
    · obtain ⟨rfl, rfl⟩ := List.cons.inj (Sample.given_linked.symm.trans given)
      obtain rfl := Except.ok.inj ((show Sample.linked.tree.resolve _ =
        .ok [Sample.directory, sourceName Sample.accounts] from rfl).symm.trans led)
      have content := (Node.file.inj (Option.some.inj ((show Sample.overwritten.tree.node? _ =
        some (.file (Text.encodeUtf8 "class A".toList) false) from rfl).symm.trans node))).1
      revert content
      decide +kernel
    · obtain ⟨project, generated⟩ := made
      obtain ⟨tree, raw, -, failed, -⟩ := generated .up
      cases failed
  · have nothing (place : Place) (source : Source) :
        ¬ Sample.emptied.tree.HoldsSource place source := by
      rintro ⟨executable, node⟩
      unfold FileTree.node? at node
      split at node
      · cases node
      · change List.lookup place [([Sample.directory], Node.directory)] = _ at node
        rw [List.lookup_cons] at node
        split at node <;> cases node
    rintro unwritten first rest ⟨-, -, place, -, holds | ⟨sql, -, holds⟩⟩
    · exact nothing _ _ holds
    · exact nothing _ _ holds

end MigrationSquash
