import MigrationSquash.Proofs.Run.Adoption
import MigrationSquash.Proofs.Run.Removal

/-!
# What the steps of a squash change

Keeping a designer file changes the designer files of the directory and what they lead to.  A
conversion that does not convert changes nothing but what the generator of scripts changes, and it
fails only if the migration cannot be written: a project that is missing and a tool that fails are
reasons to keep the migration as it is.
-/

set_option autoImplicit false

namespace MigrationSquash

open FileTree (linkLimit)
open Path (join)

variable {place : Place} {world after : World}

/-- Whether files are the reason for a failure, and not the tool or the search for a project. -/
def Failure.isOfFiles : Failure → Bool
  | .invalidDirectory _ | .read _ _ | .write _ _ | .remove _ _ | .move _ _ _ => true
  | .tool _ | .noProject _ => false

/-- The designer file that is kept when migrations become one. -/
def Batch.designer (batch : Batch) : Option Path :=
  batch.newest.file.designer.or batch.primary.file.designer

theorem Batch.newest_mem (batch : Batch) : batch.newest ∈ batch.all := by
  unfold newest
  cases last : batch.subsumed.getLast? with
  | none => exact List.mem_cons_self
  | some newest => exact List.mem_cons_of_mem _ (List.mem_of_getLast? last)

theorem Batch.map_newest {α : Type} (batch : Batch) (f : StoredMigration → α) :
    (batch.subsumed.map f).getLast?.getD (f batch.primary) = f batch.newest := by
  rw [List.getLast?_map, newest]
  cases batch.subsumed.getLast? <;> rfl

theorem Batch.exists_owner {batch : Batch} {source : Path} (kept : batch.designer = some source) :
    ∃ migration ∈ batch.all, migration.file.designer = some source := by
  rcases Option.or_eq_some_iff.1 kept with newest | ⟨-, own⟩
  · exact ⟨batch.newest, batch.newest_mem, newest⟩
  · exact ⟨batch.primary, List.mem_cons_self, own⟩

namespace Squash

section

variable {options : SquashOptions} {batch : Batch} {result : Except Failure (Option Path)}
  (listed : ∀ migration ∈ batch.all, migration.file.ListedIn world.tree options.directory)
  (ran : keepDesigner options batch world = (result, after))
include listed ran

/-- Either no designer file is there, or that of a merged migration is adopted. -/
theorem keepDesigner_cases : batch.designer = none ∧ result = .ok none ∧
      after.tree = world.tree ∨
    ∃ migration ∈ batch.all, ∃ outcome,
      batch.designer = some (join options.directory (Designer.fileName migration.id)) ∧
      world.tree.isFile (join options.directory (Designer.fileName migration.id)) = true ∧
      result = outcome.map some ∧
      Directory.Adopts (join options.directory (Designer.fileName migration.id))
        (join options.directory (Designer.fileName batch.primary.id)) batch.primary.id world.tree
        outcome after.tree := by
  unfold keepDesigner at ran
  cases found : batch.newest.file.designer.or batch.primary.file.designer with
  | none =>
      rw [found] at ran
      obtain ⟨rfl, rfl⟩ := Prod.mk.inj ran
      exact Or.inl ⟨found, rfl, rfl⟩
  | some source =>
      rw [found] at ran
      obtain ⟨migration, member, designer⟩ := batch.exists_owner found
      obtain ⟨rfl, isFile⟩ := (listed migration member).designer source designer
      refine Or.inr ⟨migration, member, ?_⟩
      rcases Run.bind_cases ran with ⟨failure, adopted, rfl⟩ | ⟨target, between, adopted, ran⟩
      · exact ⟨.error failure, found, isFile, rfl, Directory.adopts adopted⟩
      · obtain ⟨said, same, ran⟩ := (Run.Speaks.sayIf _ _).next ran
        obtain ⟨rfl, rfl⟩ := Prod.mk.inj ran
        refine ⟨.ok target, found, isFile, rfl, ?_⟩
        rw [same]
        exact Directory.adopts adopted

theorem isOfFiles_of_keepDesigner {failure : Failure} (failed : result = .error failure) :
    failure.isOfFiles = true := by
  rcases keepDesigner_cases listed ran with
    ⟨-, same, -⟩ | ⟨migration, member, outcome, -, -, same, adopts⟩
  · rw [same] at failed
    cases failed
  · rw [same] at failed
    generalize after.tree = last at adopts
    cases adopts <;> cases failed <;> rfl

variable (nested : ∀ outer name, (world.tree.node? (outer ++ [name])).isSome = true →
    world.tree.node? outer = some .directory)
  (leads : world.tree.Leads options.directory place)
include nested leads

/-- Nothing changes but designer files and the file that the kept one leads to. -/
theorem keepDesigner_spares (other : Place)
    (noDesigner : ∀ migration ∈ batch.all,
      other ≠ place ++ [Designer.fileName migration.id]) :
    after.tree.node? other = world.tree.node? other ∨
      ∃ designer, batch.designer = some designer ∧ world.tree.resolve designer = .ok other ∧
        after.tree.HoldsFile other := by
  rcases keepDesigner_cases listed ran with
    ⟨-, -, same⟩ | ⟨migration, member, outcome, kept, isFile, -, adopts⟩
  · rw [same]
    exact Or.inl rfl
  · rcases adopts.spares nested leads (MigrationFile.isEntry_designer (listed _ member).isEntry)
      (MigrationFile.isEntry_designer (listed _ List.mem_cons_self).isEntry) isFile other
      (noDesigner _ member) (noDesigner _ List.mem_cons_self) with same | ⟨led, file⟩
    · exact Or.inl same
    · exact Or.inr ⟨_, kept, led, file⟩

theorem keepDesigner_reaches {kept : Option Path} (done : result = .ok kept) :
    world.tree.Reaches options.directory place after.tree := by
  rcases keepDesigner_cases listed ran with
    ⟨-, -, same⟩ | ⟨migration, member, outcome, -, isFile, mapped, adopts⟩
  · rw [same]
    exact ⟨.refl _, leads⟩
  · cases outcome with
    | error failure =>
        rw [mapped] at done
        cases done
    | ok target =>
        exact adopts.reaches nested leads
          (MigrationFile.isEntry_designer (listed _ member).isEntry)
          (MigrationFile.isEntry_designer (listed _ List.mem_cons_self).isEntry) isFile rfl

end

theorem speaks_warnAll (hazards : List Hazard) : Run.Speaks (warnAll hazards) := by
  induction hazards with
  | nil => exact .pure
  | cons hazard rest ih => exact .bind (.warn _) ih

end Squash

namespace Conversion

/-- What is asked for to convert a procedure. -/
def request (range : ScriptRange) (project : Path) (procedure : Procedure) : ScriptRequest :=
  ⟨(range.endpoints procedure).1, (range.endpoints procedure).2, project⟩

/-- Both scripts of a range as they are generated on a tree, without the bookkeeping. -/
def Generates (scripts : ScriptSource) (settings : Settings) (range : ScriptRange)
    (tree : FileTree) (sql : Procedure → Text) : Prop :=
  ∃ project, ∀ procedure, ∃ raw, (scripts (request range project procedure) tree).1 = .ok raw ∧
    sql procedure = Script.sanitize settings.historyTable raw

/-- Both scripts of a range, each as it is generated on some tree of a kind, without the
bookkeeping. -/
def GeneratesOn (kind : FileTree → Prop) (scripts : ScriptSource) (settings : Settings)
    (range : ScriptRange) (sql : Procedure → Text) : Prop :=
  ∃ project, ∀ procedure, ∃ tree raw, kind tree ∧
    (scripts (request range project procedure) tree).1 = .ok raw ∧
    sql procedure = Script.sanitize settings.historyTable raw

theorem GeneratesOn.generates {scripts : ScriptSource} {settings : Settings} {range : ScriptRange}
    {tree : FileTree} {sql : Procedure → Text}
    (generates : GeneratesOn (· = tree) scripts settings range sql) :
    Generates scripts settings range tree sql := by
  obtain ⟨project, generated⟩ := generates
  refine ⟨project, fun procedure => ?_⟩
  obtain ⟨_, raw, rfl, made⟩ := generated procedure
  exact ⟨raw, made⟩

/-- How a conversion ends: the migration is kept as it is, it is converted, or it cannot be
written. -/
inductive Ends (kind : FileTree → Prop) (scripts : ScriptSource) (settings : Settings)
    (migration : StoredMigration) (range : ScriptRange) (lines : List Text) :
    Except Failure Conversion → FileTree → Prop
  | kept {conversion : Conversion} {tree : FileTree} (notConverted : conversion ≠ .converted)
      (holds : kind tree) : Ends kind scripts settings migration range lines (.ok conversion) tree
  | converted {tree after : FileTree} {sql : Procedure → Text} (holds : kind tree)
      (generates : GeneratesOn kind scripts settings range sql)
      (written : tree.write migration.path (migration.source.withLines
        (replaceBoth lines (sql .up) (sql .down))).toBytes = .ok after) :
      Ends kind scripts settings migration range lines (.ok .converted) after
  | notWritten (error : FileError) {tree : FileTree} {sql : Procedure → Text} (holds : kind tree)
      (generates : GeneratesOn kind scripts settings range sql) :
      Ends kind scripts settings migration range lines
        (.error (.write migration.path error)) tree

variable {kind : FileTree → Prop} {scripts : ScriptSource} {settings : Settings}
  {range : ScriptRange}

theorem ends_of_keep {migration : StoredMigration} {lines : List Text} {failure : Failure}
    {result : Except Failure Conversion} (start : kind world.tree)
    (ran : keep migration.id failure world = (result, after)) :
    Ends kind scripts settings migration range lines result after.tree := by
  obtain ⟨warned, same, ran⟩ := (Run.Speaks.warn _).next ran
  obtain ⟨rfl, rfl⟩ := Prod.mk.inj ran
  exact .kept nofun (same ▸ start)

variable (serves : ∀ request tree, kind tree → kind (scripts request tree).2)
include serves

theorem script_eq {project : Path} {procedure : Procedure}
    {result : Except Failure (Except Failure Text)} (start : kind world.tree)
    (ran : script scripts settings.historyTable range project procedure world =
      (result, after)) :
    kind after.tree ∧ ∃ answer, result = .ok answer ∧ ∀ sql, answer = .ok sql →
      ∃ tree raw, kind tree ∧ (scripts (request range project procedure) tree).1 = .ok raw ∧
        sql = Script.sanitize settings.historyTable raw := by
  obtain ⟨rfl, rfl⟩ := Prod.mk.inj ran
  refine ⟨serves _ _ start, _, rfl, fun sql same => ?_⟩
  refine ⟨world.tree, ?_⟩
  change (((scripts (request range project procedure) world.tree).1.mapError
    Failure.tool).map (Script.sanitize settings.historyTable)) = _ at same
  cases made : (scripts (request range project procedure) world.tree).1 with
  | error failure =>
      rw [made] at same
      cases same
  | ok raw =>
      rw [made] at same
      exact ⟨raw, start, rfl, (Except.ok.inj same).symm⟩

theorem convertLines_eq {project : Path} {lines : List Text}
    {result : Except Failure (Except Failure (List Text))} (start : kind world.tree)
    (ran : convertLines scripts settings.historyTable range project lines world =
      (result, after)) :
    kind after.tree ∧ ∃ answer, result = .ok answer ∧ ∀ newLines, answer = .ok newLines →
      ∃ sql, GeneratesOn kind scripts settings range sql ∧
        newLines = replaceBoth lines (sql .up) (sql .down) := by
  rcases Run.bind_cases ran with ⟨failure, ranUp, -⟩ | ⟨up, between, ranUp, ran⟩
  · obtain ⟨-, answer, same, -⟩ := script_eq serves start ranUp
    cases same
  · obtain ⟨holdsUp, answer, same, madeUp⟩ := script_eq serves start ranUp
    obtain rfl := Except.ok.inj same
    cases up with
    | error failure =>
        obtain ⟨rfl, rfl⟩ := Prod.mk.inj ran
        exact ⟨holdsUp, _, rfl, nofun⟩
    | ok up =>
        rcases Run.bind_cases ran with ⟨failure, ranDown, -⟩ | ⟨down, later, ranDown, ran⟩
        · obtain ⟨-, answer, same, -⟩ := script_eq serves holdsUp ranDown
          cases same
        · obtain ⟨holdsDown, answer, same, madeDown⟩ := script_eq serves holdsUp ranDown
          obtain rfl := Except.ok.inj same
          cases down with
          | error failure =>
              obtain ⟨rfl, rfl⟩ := Prod.mk.inj ran
              exact ⟨holdsDown, _, rfl, nofun⟩
          | ok down =>
              obtain ⟨rfl, rfl⟩ := Prod.mk.inj ran
              refine ⟨holdsDown, _, rfl, ?_⟩
              rintro newLines ⟨⟩
              refine ⟨fun procedure => if procedure = .up then up else down, ⟨project, ?_⟩, rfl⟩
              rintro (_ | _)
              · exact madeUp up rfl
              · exact madeDown down rfl

/-- Whatever the generator answers and whether or not there is a project, a conversion only fails
if the migration cannot be written. -/
theorem convert_ends {migration : StoredMigration} {lines : List Text}
    {result : Except Failure Conversion} (start : kind world.tree)
    (ran : convert scripts settings migration range lines world = (result, after)) :
    Ends kind scripts settings migration range lines result after.tree := by
  have finds (directory : Path) : ∃ project : Except Failure Path,
      projectOf settings directory world = (.ok project, world) := by
    unfold projectOf
    cases settings.project with
    | some project => exact ⟨_, rfl⟩
    | none => exact ⟨_, rfl⟩
  unfold convert at ran
  obtain ⟨project, found⟩ := finds ((Path.parent? migration.path).getD ['.'])
  rw [Run.bind_of_ok found] at ran
  cases project with
  | error failure => exact ends_of_keep start ran
  | ok project =>
      obtain ⟨said, same, ran⟩ := (Run.Speaks.sayIf _ _).next ran
      rw [← same] at start
      rcases Run.bind_cases ran with ⟨failure, converted, -⟩ | ⟨answer, between, converted, ran⟩
      · obtain ⟨-, answer, same, -⟩ := convertLines_eq serves start converted
        cases same
      · obtain ⟨holds, answered, same, made⟩ := convertLines_eq serves start converted
        obtain rfl := Except.ok.inj same
        cases answer with
        | error failure => exact ends_of_keep holds ran
        | ok newLines =>
            obtain ⟨sql, generates, rfl⟩ := made newLines rfl
            rcases Run.bind_cases ran with ⟨failure, writing, rfl⟩ | ⟨_, written, writing, ran⟩
            · obtain ⟨error, rfl, same⟩ := Run.change_eq_error writing
              rw [same]
              exact .notWritten error holds generates
            · obtain ⟨told, same, ran⟩ := (Run.Speaks.sayIf _ _).next ran
              obtain ⟨rfl, rfl⟩ := Prod.mk.inj ran
              rw [same]
              exact .converted holds generates (Run.change_eq_ok writing)

end Conversion

theorem Squash.convertIfUnsafe_ends (kind : FileTree → Prop) {scripts : ScriptSource}
    (serves : ∀ request tree, kind tree → kind (scripts request tree).2) {options : SquashOptions}
    {all : List MigrationFile} {batch : Batch} {lines : List Text} {hazards : List Hazard}
    {result : Except Failure Conversion} (start : kind world.tree)
    (ran : convertIfUnsafe scripts options all batch lines hazards world = (result, after)) :
    Conversion.Ends kind scripts options.settings batch.primary
      (.ofListing all batch.primary.id batch.newest.id) lines result after.tree := by
  unfold convertIfUnsafe at ran
  split at ran
  · obtain ⟨rfl, rfl⟩ := Prod.mk.inj ran
    exact .kept nofun start
  · split at ran
    · obtain ⟨warned, same, ran⟩ := (Run.Speaks.warn _).next ran
      obtain ⟨rfl, rfl⟩ := Prod.mk.inj ran
      exact .kept nofun (same ▸ start)
    · exact Conversion.convert_ends serves start ran

end MigrationSquash
