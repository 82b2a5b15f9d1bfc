import MigrationSquash.Proofs.Files.Lasting
import MigrationSquash.Proofs.Files.Moves

/-!
# Renamed entries

An entry behind which a file is found is no way to a directory, whatever its name.  So what leads
to a directory after a renaming led there before, and a link leads to the same file under its new
name.
-/

set_option autoImplicit false

namespace MigrationSquash.FileTree

open MigrationSquash.Path (IsEntry)

variable {tree after : FileTree} {directory : Path} {start place : Place} {name : Text}
  {names : List Text}

theorem not_directory_of_isFile (leads : tree.Leads directory place) (entry : IsEntry name)
    (isFile : tree.isFile (Path.join directory name) = true) :
    tree.node? (place ++ [name]) ≠ some .directory := by
  intro isDirectory
  obtain ⟨found, resolved, content, executable, file⟩ := exists_of_isFile isFile
  obtain ⟨-, -, rfl⟩ := (leads.resolve_join_iff entry
    fun target isLink => by rw [isDirectory] at isLink; cases isLink).1 resolved
  rw [isDirectory] at file
  cases file

/-- What was under one name is under another one, and what was there is gone. -/
structure Renamed (tree : FileTree) (place : Place) (source target : Text) (after : FileTree) :
    Prop where
  current : after.current = tree.current
  moved : after.node? (place ++ [target]) = tree.node? (place ++ [source])
  gone : source ≠ target → after.node? (place ++ [source]) = none
  others : ∀ other, other ≠ place ++ [source] → other ≠ place ++ [target] →
    after.node? other = tree.node? other

theorem Renamed.node?_cases {source target : Text} (renamed : tree.Renamed place source target after)
    (other : Place) : after.node? other = tree.node? other ∨
      other = place ++ [target] ∧ after.node? other = tree.node? (place ++ [source]) ∨
      after.node? other = none := by
  by_cases isTarget : other = place ++ [target]
  · exact Or.inr (Or.inl ⟨isTarget, isTarget ▸ renamed.moved⟩)
  · by_cases isSource : other = place ++ [source]
    · refine Or.inr (Or.inr (isSource ▸ renamed.gone ?_))
      rintro rfl
      exact isTarget isSource
    · exact Or.inl (renamed.others other isSource isTarget)

namespace Renamed

variable {source target : Text} (renamed : tree.Renamed place source target after)
include renamed

/-- A name leads where it led before, unless it is that of the renamed link. -/
theorem stride_cases {path : Path} (isLink : tree.node? (place ++ [source]) = some (.link path))
    (start : Place) (name : Text) :
    after.stride start name = tree.stride start name ∨
      after.stride start name = .link place path ∨
      ∃ found error, after.stride start name = .ends found error ∧ ¬ after.HoldsFile found := by
  unfold stride
  split
  · exact Or.inl rfl
  · split
    · exact Or.inl rfl
    · split
      · exact Or.inl rfl
      · rcases renamed.node?_cases (start ++ [name]) with same | ⟨atTarget, same⟩ | absent
        · left
          rw [same]
        · obtain ⟨rfl, -⟩ := List.append_inj' atTarget rfl
          right
          left
          rw [same, isLink]
        · right
          right
          rw [absent]
          refine ⟨_, _, rfl, ?_⟩
          rintro ⟨content, executable, file⟩
          rw [absent] at file
          cases file

theorem walk_of_file {path : Path} (isLink : tree.node? (place ++ [source]) = some (.link path))
    {found : Place} (walked : after.walk start names = .place found) (file : after.HoldsFile found) :
    tree.walk start names = .place found := by
  induction names generalizing start with
  | nil => exact walked
  | cons name rest ih =>
      rcases renamed.stride_cases isLink start name with same | linked | ⟨on, failure, ended, noFile⟩
      · rw [walk_cons_eq_place_iff, ← same]
        exact (walk_cons_eq_place_iff.1 walked).imp_left fun ⟨next, strides, walked⟩ =>
          ⟨next, strides, ih walked⟩
      · rw [walk_cons, linked] at walked
        cases walked
      · rcases walk_cons_eq_place_iff.1 walked with ⟨next, strides, -⟩ | ⟨error, strides, -⟩
        · cases ended.symm.trans strides
        · obtain ⟨rfl, -⟩ := Stride.ends.inj (ended.symm.trans strides)
          exact absurd file noFile

theorem walk_of_link {path : Path} (isLink : tree.node? (place ++ [source]) = some (.link path))
    {base : Place} {onward : Path} {left : List Text}
    (walked : after.walk start names = .link base onward left) :
    tree.walk start names = .link base onward left ∨ base = place ∧ onward = path := by
  induction names generalizing start with
  | nil => cases walked
  | cons name rest ih =>
      rcases walk_cons_eq_link_iff.1 walked with ⟨next, strides, walked⟩ | ⟨strides, rfl⟩
      · rcases renamed.stride_cases isLink start name with same | linked | ⟨on, error, ended, -⟩
        · rw [walk_cons_of_on (same.symm.trans strides)]
          exact ih walked
        · cases linked.symm.trans strides
        · cases ended.symm.trans strides
      · rcases renamed.stride_cases isLink start name with same | linked | ⟨on, error, ended, -⟩
        · exact Or.inl (walk_cons_eq_link_iff.2 (Or.inr ⟨same.symm.trans strides, rfl⟩))
        · obtain ⟨rfl, rfl⟩ := Stride.link.inj (linked.symm.trans strides)
          exact Or.inr ⟨rfl, rfl⟩
        · cases ended.symm.trans strides

end Renamed

namespace Renamed

variable {source target : Text} (renamed : tree.Renamed place source target after)
  (noDirectory : tree.node? (place ++ [source]) ≠ some .directory)
  (blocked : ∀ path, tree.node? (place ++ [source]) = some (.link path) →
    ∀ links, tree.Blocks links place path)
include renamed noDirectory blocked

/-- A link under another name is on no way either: it would lead there through fewer links. -/
theorem keeps (limit : Nat) : after.Keeps limit tree := by
  have directories (other : Place) (found : after.node? other = some .directory) :
      tree.node? other = some .directory := by
    rcases renamed.node?_cases other with same | ⟨-, same⟩ | absent
    · exact same.symm.trans found
    · exact absurd (same.symm.trans found) noDirectory
    · rw [absent] at found
      cases found
  induction limit with
  | zero => exact ⟨renamed.current.symm, directories, fun _ _ _ _ => Or.inr fun _ => nofun⟩
  | succ limit ih =>
      refine ⟨renamed.current.symm, directories, fun outer last path found => ?_⟩
      rcases renamed.node?_cases (outer ++ [last]) with same | ⟨atTarget, same⟩ | absent
      · exact Or.inl (same.symm.trans found)
      · obtain ⟨rfl, -⟩ := List.append_inj' atTarget rfl
        exact Or.inr fun links below =>
          ih.blocks (Nat.le_of_lt_succ below) (blocked path (same.symm.trans found) links)
      · rw [absent] at found
        cases found

/-- Behind a link that was renamed a file is reached as it was before.  On the way the link is met
again at most at the end, and then fewer links suffice. -/
theorem resolveFrom_cases {path : Path} (isLink : tree.node? (place ++ [source]) = some (.link path))
    {links : Nat} {found : Place} (leads : after.resolveFrom links start names = .ok found)
    (file : after.HoldsFile found) :
    tree.resolveFrom links start names = .ok found ∨
      ∃ fewer < links, after.resolveFrom fewer (startOf place path) (namesOf path) = .ok found := by
  simp only [resolveFrom_eq_ok_iff] at leads ⊢
  induction leads with
  | arrives walked => exact Or.inl (.arrives (renamed.walk_of_file isLink walked file))
  | @follows links start base names left target walked nonempty onward ih =>
      rcases renamed.walk_of_link isLink walked with same | ⟨rfl, rfl⟩
      · rcases ih with whole | ⟨fewer, below, later⟩
        · exact Or.inl (.follows same nonempty whole)
        · exact Or.inr ⟨fewer, Nat.lt_succ_of_lt below, later⟩
      · cases left using List.reverseRecOn with
        | nil =>
            rw [List.append_nil] at onward
            exact Or.inr ⟨links, Nat.lt_succ_self links, onward⟩
        | append_singleton rest last =>
            rw [← List.append_assoc] at onward
            obtain ⟨on, opened⟩ := exists_resolveFrom_of_concat (resolveFrom_eq_ok_iff.2 onward)
            rw [List.append_assoc] at opened
            exact absurd opened ((renamed.keeps noDirectory blocked links).blocks
              (Nat.le_refl _) (blocked _ isLink links) rest on)

theorem exists_resolveFrom {path : Path} (isLink : tree.node? (place ++ [source]) = some (.link path))
    {links : Nat} {found : Place}
    (leads : after.resolveFrom links (startOf place path) (namesOf path) = .ok found)
    (file : after.HoldsFile found) :
    ∃ enough, tree.resolveFrom enough (startOf place path) (namesOf path) = .ok found := by
  induction links using Nat.strongRecOn with
  | ind links ih =>
      rcases renamed.resolveFrom_cases noDirectory blocked isLink leads file with
        whole | ⟨fewer, below, onward⟩
      · exact ⟨links, whole⟩
      · exact ih fewer below onward

end Renamed

section

variable {source target : Text} (sourceEntry : IsEntry source) (targetEntry : IsEntry target)
  (nested : ∀ outer name, (tree.node? (outer ++ [name])).isSome = true →
    tree.node? outer = some .directory)
  (leads : tree.Leads directory place)
  (isFile : tree.isFile (Path.join directory source) = true)
include sourceEntry targetEntry nested leads isFile

/-- An entry that is brought to another path of its directory is renamed. -/
theorem Brings.renamed
    (brings : tree.Brings (Path.join directory source) (Path.join directory target) after) :
    tree.Renamed place source target after := by
  have noDirectory := not_directory_of_isFile leads sourceEntry isFile
  cases brings with
  | inPlace same =>
      obtain rfl := (Path.same_join_iff sourceEntry targetEntry).1 same
      exact ⟨rfl, rfl, fun differ => absurd rfl differ, fun _ _ _ => rfl⟩
  | @moved cleared _ differ clears renamed =>
      have namesDiffer : source ≠ target := by
        rintro rfl
        rw [(Path.same_join_iff sourceEntry targetEntry).2 rfl] at differ
        cases differ
      have left : cleared.Keeps linkLimit tree ∧
          (∀ outer name, (cleared.node? (outer ++ [name])).isSome = true →
            cleared.node? outer = some .directory) ∧
          ∀ other, other ≠ place ++ [target] → cleared.node? other = tree.node? other := by
        rcases clears with ⟨-, rfl⟩ | ⟨-, removed⟩
        · exact ⟨.refl _, nested, fun _ _ => rfl⟩
        · obtain ⟨on, node, leadsToo, found, otherNode, rfl⟩ :=
            remove_join_eq_ok targetEntry removed
          obtain rfl := leads.unique leadsToo
          have inner := append_name_ne_nil place target
          refine ⟨.of_erase inner, nested_erase nested inner ?_, fun other spared => ?_⟩
          · rw [found]
            exact fun same => otherNode (Option.some.inj same)
          · rw [node?_erase _ _ _ inner, if_neg spared]
      obtain ⟨keeps, nestedToo, nodes⟩ := left
      have sourceStays : cleared.node? (place ++ [source]) = tree.node? (place ++ [source]) :=
        nodes _ (by simpa using namesDiffer)
      have samePlace {on : Place} (leadsToo : cleared.Leads directory on) : place = on :=
        leads.unique (leadsToo.kept keeps)
      obtain ⟨on, node, leadsToo, -, -, -, rfl⟩ :=
        rename_join_eq_ok sourceEntry targetEntry namesDiffer
          (fun on leadsToo => by rwa [← samePlace leadsToo, sourceStays]) renamed
      obtain rfl := samePlace leadsToo
      have after := node?_move nestedToo namesDiffer (by rwa [sourceStays])
      refine ⟨keeps.current.symm, ?_, fun differ => ?_, fun other noSource noTarget => ?_⟩
      · rw [after, if_pos rfl, sourceStays]
      · rw [after, if_neg (by simpa using differ), if_pos rfl]
      · rw [after, if_neg noTarget, if_neg noSource, nodes other noTarget]

/-- The path of the new name leads to the entry, or through the link that the entry is to where the
old name led. -/
theorem Renamed.resolve_cases (renamed : tree.Renamed place source target after) {found : Place}
    (resolved : after.resolve (Path.join directory target) = .ok found)
    (file : after.HoldsFile found) :
    found = place ++ [target] ∨ tree.resolve (Path.join directory source) = .ok found := by
  have noDirectory := not_directory_of_isFile leads sourceEntry isFile
  have blocked (path : Path) (isLink : tree.node? (place ++ [source]) = some (.link path)) :=
    Leads.blocks nested leads sourceEntry isLink isFile
  obtain ⟨on, leadsAfter⟩ := exists_leads_of_resolve targetEntry resolved
  obtain rfl := leads.unique (leadsAfter.kept (renamed.keeps noDirectory blocked linkLimit))
  by_cases linked : ∃ path, tree.node? (place ++ [source]) = some (.link path)
  · right
    obtain ⟨path, isLink⟩ := linked
    obtain ⟨links, onward⟩ := leadsAfter.exists_resolveFrom_of_link targetEntry
      (renamed.moved.trans isLink) resolved
    obtain ⟨enough, whole⟩ := renamed.exists_resolveFrom noDirectory blocked isLink onward file
    obtain ⟨first, resolvedFirst, -⟩ := exists_of_isFile isFile
    obtain ⟨few, direct⟩ := leads.exists_resolveFrom_of_link sourceEntry isLink resolvedFirst
    rw [resolvedFirst, resolveFrom_unique direct whole]
  · left
    refine ((leadsAfter.resolve_join_iff targetEntry fun path isLink => ?_).1 resolved).2.2
    exact linked ⟨path, renamed.moved.symm.trans isLink⟩

end

end MigrationSquash.FileTree
