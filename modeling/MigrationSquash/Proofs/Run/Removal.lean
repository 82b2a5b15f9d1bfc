import MigrationSquash.Proofs.Files.Lasting
import MigrationSquash.Proofs.Run.Steps
import MigrationSquash.Squash

/-!
# Removing what was merged

A run that removes migrations takes away their source files and those of their designer files
that it still finds, in the order of the migrations, each of them once, and nothing else.
-/

set_option autoImplicit false

namespace MigrationSquash

open MigrationFile (sourceName)
open Path (IsEntry)

/-- Entries of a directory that are gone, each of them once. -/
structure FileTree.Cleared (tree : FileTree) (place : Place) (names : List Text)
    (after : FileTree) : Prop where
  gone : ∀ name ∈ names, after.node? (place ++ [name]) = none
  spared : ∀ other, (∀ name ∈ names, other ≠ place ++ [name]) →
    after.node? other = tree.node? other
  present : ∀ name ∈ names, (tree.node? (place ++ [name])).isSome = true
  once : names.Nodup

namespace FileTree.Cleared

variable {tree between after : FileTree} {place : Place} {names more : List Text}

theorem nil (tree : FileTree) (place : Place) : tree.Cleared place [] tree where
  gone := nofun
  spared _ _ := rfl
  present := nofun
  once := List.nodup_nil

theorem single {name : Text} (present : (tree.node? (place ++ [name])).isSome = true) :
    tree.Cleared place [name] (tree.erase (place ++ [name])) where
  gone other member := by
    obtain rfl := List.mem_singleton.1 member
    rw [node?_erase _ _ _ (append_name_ne_nil _ _), if_pos rfl]
  spared other differs := by
    rw [node?_erase _ _ _ (append_name_ne_nil _ _), if_neg (differs name List.mem_cons_self)]
  present other member := by
    obtain rfl := List.mem_singleton.1 member
    exact present
  once := List.nodup_cons.2 ⟨List.not_mem_nil, List.nodup_nil⟩

theorem node?_of_not_mem (cleared : tree.Cleared place names after) {name : Text}
    (absent : name ∉ names) : after.node? (place ++ [name]) = tree.node? (place ++ [name]) := by
  refine cleared.spared _ fun entry member same => ?_
  obtain rfl := List.singleton_inj.1 (List.append_cancel_left same)
  exact absent member

theorem append (first : tree.Cleared place names between)
    (second : between.Cleared place more after) : tree.Cleared place (names ++ more) after := by
  have apart {name : Text} (member : name ∈ names) : name ∉ more := by
    intro again
    have present := second.present name again
    rw [first.gone name member] at present
    cases present
  refine ⟨fun name member => ?_, fun place spared => ?_, fun name member => ?_, ?_⟩
  · rcases List.mem_append.1 member with inFirst | inSecond
    · rw [second.node?_of_not_mem (apart inFirst), first.gone name inFirst]
    · exact second.gone name inSecond
  · rw [second.spared _ fun name member => spared name (List.mem_append_right _ member),
      first.spared _ fun name member => spared name (List.mem_append_left _ member)]
  · rcases List.mem_append.1 member with inFirst | inSecond
    · exact first.present name inFirst
    · rw [← first.node?_of_not_mem fun inFirst => apart inFirst inSecond]
      exact second.present name inSecond
  · exact List.nodup_append.2 ⟨first.once, second.once,
      fun name member _ again same => apart member (same ▸ again)⟩

theorem node?_cases (cleared : tree.Cleared place names after) (other : Place) :
    after.node? other = none ∨ after.node? other = tree.node? other := by
  by_cases named : ∃ name ∈ names, other = place ++ [name]
  · obtain ⟨name, member, rfl⟩ := named
    exact Or.inl (cleared.gone name member)
  · exact Or.inr (cleared.spared other fun name member same => named ⟨name, member, same⟩)

end FileTree.Cleared

namespace Squash

variable {before : FileTree} {directory : Path} {place : Place} {world after : World}

/-- What of the files of one merged migration is to go: its source file, and its designer file unless
that is kept or not found. -/
structure Leaves (kept : Option Path) (migration : StoredMigration) (tree : FileTree)
    (names : List Text) : Prop where
  ordered : names.Sublist [sourceName migration.id, Designer.fileName migration.id]
  source : sourceName migration.id ∈ names
  owned : ∀ name ∈ names, name = sourceName migration.id ∨
    name = Designer.fileName migration.id ∧ migration.file.designer.isSome = true
  designer : Designer.fileName migration.id ∈ names ∨
    ∀ designer, migration.file.designer = some designer →
      kept.any (Path.same designer) = false → tree.pathExists designer = false

/-- What is found of the files of a migration, whatever was removed before. -/
def leftoverPaths (kept : Option Path) (migration : StoredMigration) (tree : FileTree) : List Path :=
  migration.path :: migration.file.designer.toList.filter fun designer =>
    !kept.any (Path.same designer) && tree.pathExists designer

theorem leftovers_eq (kept : Option Path) (migration : StoredMigration) (world : World) :
    leftovers kept migration world = (.ok (leftoverPaths kept migration world.tree), world) := by
  unfold leftovers leftoverPaths
  cases migration.file.designer with
  | none => rfl
  | some designer =>
      refine (Run.bind_of_ok rfl _).trans ?_
      dsimp only
      split
      · next left =>
          simp only [Option.toList_some, List.filter_cons, left, if_pos, List.filter_nil]
          rfl
      · next absent =>
          simp only [Option.toList_some, List.filter_cons, absent, List.filter_nil]
          rfl

/-- The files of one migration are removed before those of the others. -/
theorem removeSubsumed_cons (verbose : Bool) (kept : Option Path) (migration : StoredMigration)
    (rest : List StoredMigration) (world : World) :
    removeSubsumed verbose kept (migration :: rest) world =
      (do
        let removed ← removeAll verbose (leftoverPaths kept migration world.tree)
        let others ← removeSubsumed verbose kept rest
        return removed ++ others : Run (List Path)) world :=
  Run.bind_of_ok (leftovers_eq kept migration world) _

theorem exists_leaves {kept : Option Path} {migration : StoredMigration} {tree : FileTree}
    (listed : migration.file.ListedIn before directory) :
    ∃ names : List Text, Leaves kept migration tree names ∧
      leftoverPaths kept migration tree = names.map (Path.join directory) := by
  have path : migration.path = Path.join directory (sourceName migration.id) := listed.path
  have sourceOnly (designer : ∀ designer, migration.file.designer = some designer →
      kept.any (Path.same designer) = false → tree.pathExists designer = false) :
      Leaves kept migration tree [sourceName migration.id] :=
    ⟨by simp, List.mem_cons_self, fun name member => Or.inl (List.mem_singleton.1 member),
      Or.inr designer⟩
  rw [leftoverPaths, path]
  cases found : migration.file.designer with
  | none =>
      refine ⟨_, sourceOnly fun designer isDesigner => ?_, rfl⟩
      rw [found] at isDesigner
      cases isDesigner
  | some designer =>
      have own := (listed.designer designer found).1
      cases left : (!kept.any (Path.same designer) && tree.pathExists designer) with
      | true =>
          refine ⟨[sourceName migration.id, Designer.fileName migration.id],
            ⟨List.Sublist.refl _, List.mem_cons_self, ?_,
              Or.inl (List.mem_cons_of_mem _ List.mem_cons_self)⟩, ?_⟩
          · intro name member
            rcases List.mem_cons.1 member with isSource | isDesigner
            · exact Or.inl isSource
            · exact Or.inr ⟨List.mem_singleton.1 isDesigner, by rw [found]; rfl⟩
          · simp only [Option.toList_some, List.filter_cons, left, if_pos, List.filter_nil]
            rw [own]
            rfl
      | false =>
          refine ⟨_, sourceOnly fun other isDesigner notKept => ?_, ?_⟩
          · obtain rfl := Option.some.inj (found.symm.trans isDesigner)
            rw [notKept] at left
            exact left
          · simp only [Option.toList_some, List.filter_cons, left, Bool.false_eq_true, if_false,
              List.filter_nil]
            rfl

/-- What is to go of a migration was found as files. -/
theorem Leaves.isFile {kept : Option Path} {migration : StoredMigration} {names : List Text}
    {tree : FileTree} (leaves : Leaves kept migration tree names)
    (listed : migration.file.ListedIn before directory)
    (found : before.isFile migration.path = true) :
    ∀ name ∈ names, IsEntry name ∧ before.isFile (Path.join directory name) = true := by
  intro name member
  rcases leaves.owned name member with rfl | ⟨rfl, present⟩
  · rw [show migration.path = _ from listed.path] at found
    exact ⟨listed.isEntry, found⟩
  · obtain ⟨designer, isDesigner⟩ := Option.isSome_iff_exists.1 present
    obtain ⟨rfl, isFile⟩ := listed.designer designer isDesigner
    exact ⟨MigrationFile.isEntry_designer listed.isEntry, isFile⟩

/-- The designer file is not there any more when the rest of the migration is gone. -/
theorem Leaves.node?_designer {kept : Option Path} {migration : StoredMigration}
    {names : List Text} {tree last : FileTree} (leaves : Leaves kept migration tree names)
    (reaches : before.Reaches directory place tree) (cleared : tree.Cleared place names last)
    (listed : migration.file.ListedIn before directory) {designer : Path}
    (isDesigner : migration.file.designer = some designer)
    (notKept : kept.any (Path.same designer) = false)
    (plain : ∀ target,
      tree.node? (place ++ [Designer.fileName migration.id]) ≠ some (.link target)) :
    last.node? (place ++ [Designer.fileName migration.id]) = none := by
  rcases leaves.designer with member | absent
  · exact cleared.gone _ member
  · have designerEntry := MigrationFile.isEntry_designer listed.isEntry
    obtain ⟨rfl, isFile⟩ := listed.designer designer isDesigner
    obtain ⟨on, resolved, -⟩ := FileTree.exists_of_isFile isFile
    obtain ⟨checked, short⟩ := (reaches.leads.kept reaches.keeps).short designerEntry resolved
    have missing := reaches.leads.node?_of_not_pathExists designerEntry plain checked short
      (absent _ isDesigner notKept)
    exact (cleared.node?_cases _).elim id fun same => same.trans missing

/-- What is removed of merged migrations: all source files, and the designer files that are not
kept. -/
structure Removal (directory : Path) (place : Place) (kept : Option Path)
    (subsumed : List StoredMigration) (names : List Text) (tree after : FileTree) : Prop where
  cleared : tree.Cleared place names after
  ordered : names.Sublist
    (subsumed.flatMap fun migration => [sourceName migration.id, Designer.fileName migration.id])
  sources : ∀ migration ∈ subsumed, sourceName migration.id ∈ names
  owned : ∀ name ∈ names, ∃ migration ∈ subsumed, name = sourceName migration.id ∨
    name = Designer.fileName migration.id ∧ migration.file.designer.isSome = true
  designers : ∀ migration ∈ subsumed, ∀ designer, migration.file.designer = some designer →
    kept.any (Path.same designer) = false →
    (∀ target, tree.node? (place ++ [Designer.fileName migration.id]) ≠ some (.link target)) →
    after.node? (place ++ [Designer.fileName migration.id]) = none

/-- The files of one more migration are removed first. -/
theorem Removal.cons {kept : Option Path} {migration : StoredMigration}
    {rest : List StoredMigration} {names more : List Text} {tree between last : FileTree}
    (removal : Removal directory place kept rest more between last)
    (leaves : Leaves kept migration tree names) (cleared : tree.Cleared place names between)
    (reaches : before.Reaches directory place tree)
    (listed : migration.file.ListedIn before directory) :
    Removal directory place kept (migration :: rest) (names ++ more) tree last where
  cleared := cleared.append removal.cleared
  ordered := by
    rw [List.flatMap_cons]
    exact leaves.ordered.append removal.ordered
  sources other member := by
    rcases List.mem_cons.1 member with rfl | inRest
    · exact List.mem_append_left _ leaves.source
    · exact List.mem_append_right _ (removal.sources other inRest)
  owned name member := by
    rcases List.mem_append.1 member with inFirst | inMore
    · exact ⟨migration, List.mem_cons_self, leaves.owned name inFirst⟩
    · obtain ⟨other, inRest, isIts⟩ := removal.owned name inMore
      exact ⟨other, List.mem_cons_of_mem _ inRest, isIts⟩
  designers other member designer isDesigner notKept plain := by
    rcases List.mem_cons.1 member with rfl | inRest
    · have gone := leaves.node?_designer reaches cleared listed isDesigner notKept plain
      exact (removal.cleared.node?_cases _).elim id fun same => same.trans gone
    · refine removal.designers other inRest designer isDesigner notKept fun target isLink => ?_
      rcases cleared.node?_cases (place ++ [Designer.fileName other.id]) with gone | same
      · rw [gone] at isLink
        cases isLink
      · exact plain target (same.symm.trans isLink)

theorem exists_of_removeAll_error {verbose : Bool} {paths : List Path} {failure : Failure}
    (ran : removeAll verbose paths world = (.error failure, after)) :
    ∃ path error, failure = .remove path error := by
  induction paths generalizing world with
  | nil => cases (Prod.mk.inj ran).1
  | cons path rest ih =>
      rcases Run.bind_cases ran with ⟨_, removing, ⟨⟩⟩ | ⟨_, removed, -, ran⟩
      · obtain ⟨error, rfl, -⟩ := Run.change_eq_error removing
        exact ⟨path, error, rfl⟩
      · obtain ⟨said, -, ran⟩ := (Run.Speaks.sayIf _ _).next ran
        rcases Run.bind_cases ran with ⟨_, later, ⟨⟩⟩ | ⟨_, last, -, ran⟩
        · exact ih later
        · cases (Prod.mk.inj ran).1

theorem exists_of_removeSubsumed_error {verbose : Bool} {kept : Option Path}
    {subsumed : List StoredMigration} {failure : Failure}
    (ran : removeSubsumed verbose kept subsumed world = (.error failure, after)) :
    ∃ path error, failure = .remove path error := by
  induction subsumed generalizing world with
  | nil => cases (Prod.mk.inj ran).1
  | cons migration rest ih =>
      rw [removeSubsumed_cons] at ran
      rcases Run.bind_cases ran with ⟨_, removing, ⟨⟩⟩ | ⟨_, removed, -, ran⟩
      · exact exists_of_removeAll_error removing
      rcases Run.bind_cases ran with ⟨_, later, ⟨⟩⟩ | ⟨_, last, -, ran⟩
      · exact ih later
      · cases (Prod.mk.inj ran).1

theorem spares_removeFile {directory : Path} {name other : Text} (entry : IsEntry name)
    (differs : other ≠ name) (place : Place) :
    Run.Spares (place ++ [other]) (Run.removeFile (Path.join directory name)) := by
  intro world
  cases ran : Run.removeFile (Path.join directory name) world with
  | mk result after =>
      cases result with
      | error failure =>
          obtain ⟨-, -, same⟩ := Run.change_eq_error ran
          change after.tree.node? _ = _
          rw [same]
      | ok value =>
          obtain ⟨found, node, -, -, -, same⟩ :=
            FileTree.remove_join_eq_ok entry (Run.change_eq_ok ran)
          change after.tree.node? _ = _
          rw [same, FileTree.node?_erase _ _ _ (FileTree.append_name_ne_nil _ _), if_neg]
          exact fun alike => differs (List.singleton_inj.1 (List.append_inj' alike rfl).2)

theorem spares_removeAll {directory : Path} {names : List Text} {other : Text} {verbose : Bool}
    (entries : ∀ name ∈ names, IsEntry name ∧ other ≠ name) (place : Place) :
    Run.Spares (place ++ [other]) (removeAll verbose (names.map (Path.join directory))) := by
  induction names with
  | nil => exact .pure _
  | cons name rest ih =>
      obtain ⟨entry, differs⟩ := entries name List.mem_cons_self
      have later := ih fun name member => entries name (List.mem_cons_of_mem _ member)
      exact .bind (spares_removeFile entry differs place) fun _ =>
        .bind (.sayIf _ _) fun _ => .bind later fun _ => .pure _

/-- A removal of merged migrations leaves alone what has none of their names, wherever it ends. -/
theorem spares_removeSubsumed {before : FileTree} {directory : Path} {other : Text}
    {verbose : Bool} {kept : Option Path} {subsumed : List StoredMigration}
    (listed : ∀ migration ∈ subsumed, migration.file.ListedIn before directory)
    (differs : ∀ migration ∈ subsumed,
      other ≠ sourceName migration.id ∧ other ≠ Designer.fileName migration.id) (place : Place) :
    Run.Spares (place ++ [other]) (removeSubsumed verbose kept subsumed) := by
  induction subsumed with
  | nil => exact .pure _
  | cons migration rest ih =>
      intro world
      have own := listed migration List.mem_cons_self
      obtain ⟨names, leaves, paths⟩ := exists_leaves own
      rw [removeSubsumed_cons, paths]
      have entries : ∀ name ∈ names, IsEntry name ∧ other ≠ name := by
        intro name member
        obtain ⟨noSource, noDesigner⟩ := differs migration List.mem_cons_self
        rcases leaves.owned name member with rfl | ⟨rfl, -⟩
        · exact ⟨own.isEntry, noSource⟩
        · exact ⟨MigrationFile.isEntry_designer own.isEntry, noDesigner⟩
      have later := ih (fun migration member => listed migration (List.mem_cons_of_mem _ member))
        fun migration member => differs migration (List.mem_cons_of_mem _ member)
      exact Run.Spares.bind (spares_removeAll entries place)
        (fun _ => .bind later fun _ => .pure _) world

variable (nested : ∀ outer name, (before.node? (outer ++ [name])).isSome = true →
    before.node? outer = some .directory)
include nested

theorem removeAll_eq_ok {verbose : Bool} {names : List Text} {removed : List Path}
    (reaches : before.Reaches directory place world.tree)
    (files : ∀ name ∈ names, IsEntry name ∧ before.isFile (Path.join directory name) = true)
    (ran : removeAll verbose (names.map (Path.join directory)) world = (.ok removed, after)) :
    removed = names.map (Path.join directory) ∧ before.Reaches directory place after.tree ∧
      world.tree.Cleared place names after.tree := by
  induction names generalizing world removed with
  | nil =>
      obtain ⟨rfl, rfl⟩ := Run.pure_eq_ok_iff.1 ran
      exact ⟨rfl, reaches, .nil _ _⟩
  | cons name rest ih =>
      obtain ⟨entry, isFile⟩ := files name List.mem_cons_self
      obtain ⟨_, erased, removing, ran⟩ := Run.bind_eq_ok_iff.1 ran
      obtain ⟨reachesNext, present, isErased⟩ :=
        reaches.remove entry nested isFile (Run.change_eq_ok removing)
      obtain ⟨said, saidTree, ran⟩ := (Run.Speaks.sayIf _ _).next ran
      obtain ⟨others, last, later, ran⟩ := Run.bind_eq_ok_iff.1 ran
      obtain ⟨rfl, rfl⟩ := Run.pure_eq_ok_iff.1 ran
      rw [← saidTree] at reachesNext
      obtain ⟨rfl, reachesLast, cleared⟩ :=
        ih reachesNext (fun other member => files other (List.mem_cons_of_mem _ member)) later
      refine ⟨rfl, reachesLast, ?_⟩
      rw [saidTree, isErased] at cleared
      exact FileTree.Cleared.append (.single present) cleared

theorem removeSubsumed_eq_ok {verbose : Bool} {kept : Option Path}
    {subsumed : List StoredMigration} {removed : List Path}
    (listed : ∀ migration ∈ subsumed, migration.file.ListedIn before directory)
    (found : ∀ migration ∈ subsumed, before.isFile migration.path = true)
    (reaches : before.Reaches directory place world.tree)
    (ran : removeSubsumed verbose kept subsumed world = (.ok removed, after)) :
    ∃ names : List Text, removed = names.map (Path.join directory) ∧
      before.Reaches directory place after.tree ∧
      Removal directory place kept subsumed names world.tree after.tree := by
  induction subsumed generalizing world removed with
  | nil =>
      obtain ⟨rfl, rfl⟩ := Run.pure_eq_ok_iff.1 ran
      exact ⟨[], rfl, reaches, .nil _ _, .slnil, nofun, nofun, nofun⟩
  | cons migration rest ih =>
      have own := listed migration List.mem_cons_self
      obtain ⟨names, leaves, paths⟩ := exists_leaves own
      rw [removeSubsumed_cons, paths] at ran
      obtain ⟨first, between, removing, ran⟩ := Run.bind_eq_ok_iff.1 ran
      obtain ⟨others, last, later, ran⟩ := Run.bind_eq_ok_iff.1 ran
      obtain ⟨rfl, rfl⟩ := Run.pure_eq_ok_iff.1 ran
      obtain ⟨rfl, reachesNext, cleared⟩ := removeAll_eq_ok nested reaches
        (leaves.isFile own (found migration List.mem_cons_self)) removing
      obtain ⟨more, rfl, reachesLast, removal⟩ :=
        ih (fun other member => listed other (List.mem_cons_of_mem _ member))
          (fun other member => found other (List.mem_cons_of_mem _ member)) reachesNext later
      exact ⟨names ++ more, by rw [List.map_append], reachesLast,
        removal.cons leaves cleared reaches own⟩

end Squash

end MigrationSquash
