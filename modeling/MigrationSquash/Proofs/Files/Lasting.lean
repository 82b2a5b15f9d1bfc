import MigrationSquash.Proofs.Files.Entries

/-!
# Ways that last

Writing to a file and taking away a file or a link make no way: what then leads to a directory led
there before.  And they leave the ways that there are, unless a link is taken away behind which a
directory is.
-/

set_option autoImplicit false

namespace MigrationSquash.FileTree

open MigrationSquash.Path (IsEntry)

variable {tree after last : FileTree} {directory : Path} {start place : Place} {name : Text}
  {names : List Text}

theorem resolveFrom_mono {links more : Nat} (within : links ≤ more)
    (leads : tree.resolveFrom links start names = .ok place) :
    tree.resolveFrom more start names = .ok place := by
  rw [resolveFrom_eq_ok_iff] at leads ⊢
  induction leads generalizing more with
  | arrives walked => exact .arrives walked
  | follows walked nonempty _ ih =>
      cases more with
      | zero => exact absurd within (Nat.not_succ_le_zero _)
      | succ more => exact .follows walked nonempty (ih (Nat.le_of_succ_le_succ within))

theorem resolveFrom_unique {links more : Nat} {other : Place}
    (leads : tree.resolveFrom links start names = .ok place)
    (leadsToo : tree.resolveFrom more start names = .ok other) : place = other := by
  rcases Nat.le_total links more with within | within
  · exact Except.ok.inj ((resolveFrom_mono within leads).symm.trans leadsToo)
  · exact Except.ok.inj (leads.symm.trans (resolveFrom_mono within leadsToo))

namespace Keeps

variable {limit : Nat}

theorem refl (tree : FileTree) : tree.Keeps limit tree where
  current := rfl
  directories _ found := found
  links _ _ _ found := Or.inl found

theorem blocks (keeps : tree.Keeps limit after) {links : Nat} (within : links ≤ limit)
    {base : Place} {target : Path} (blocked : after.Blocks links base target) :
    tree.Blocks links base target := by
  intro rest found leads
  rw [← List.append_assoc] at leads
  have leadsAfter := keeps.resolveFrom within leads
  rw [List.append_assoc] at leadsAfter
  exact blocked rest found leadsAfter

theorem trans (first : tree.Keeps limit after) (second : after.Keeps limit last) :
    tree.Keeps limit last where
  current := second.current.trans first.current
  directories place found := second.directories place (first.directories place found)
  links place name target found := by
    rcases first.links place name target found with same | blocked
    · rcases second.links place name target same with same | blocked
      · exact Or.inl same
      · exact Or.inr fun links below => first.blocks (Nat.le_of_lt below) (blocked links below)
    · exact Or.inr blocked

/-- Nodes that are neither directories nor links are on no way. -/
theorem of_nodes (current : after.current = tree.current)
    (nodes : ∀ other, after.node? other = tree.node? other ∨
      tree.node? other = none ∨ tree.HoldsFile other) : tree.Keeps limit after where
  current := current
  directories other found := by
    rcases nodes other with same | absent | ⟨content, executable, file⟩
    · exact same.trans found
    · rw [absent] at found
      cases found
    · rw [file] at found
      cases found
  links outer last target found := by
    rcases nodes (outer ++ [last]) with same | absent | ⟨content, executable, file⟩
    · exact Or.inl (same.trans found)
    · rw [absent] at found
      cases found
    · rw [file] at found
      cases found

theorem of_erase (inner : place ≠ []) : (tree.erase place).Keeps limit tree := by
  refine of_nodes rfl fun other => ?_
  rw [node?_erase _ _ _ inner]
  split
  · exact Or.inr (Or.inl rfl)
  · exact Or.inl rfl

theorem erase (noDirectory : tree.node? (place ++ [name]) ≠ some .directory)
    (blocked : ∀ target, tree.node? (place ++ [name]) = some (.link target) →
      ∀ links < limit, tree.Blocks links place target) :
    tree.Keeps limit (tree.erase (place ++ [name])) where
  current := rfl
  directories other found := by
    rw [node?_erase _ _ _ (append_name_ne_nil place name), if_neg]
    · exact found
    · rintro rfl
      exact noDirectory found
  links outer last target found := by
    rw [node?_erase _ _ _ (append_name_ne_nil place name)]
    split
    · next same =>
        obtain ⟨rfl, name⟩ := List.append_inj' same rfl
        obtain rfl := List.singleton_inj.1 name
        exact Or.inr (blocked target found)
    · exact Or.inl found

variable {content : Bytes} {executable : Bool}

theorem set (isFile : tree.HoldsFile place) :
    tree.Keeps limit (tree.set place (.file content executable)) := by
  refine of_nodes rfl fun other => ?_
  rw [node?_set _ _ _ _ isFile.ne_nil]
  split
  · next same => exact Or.inr (Or.inr (same ▸ isFile))
  · exact Or.inl rfl

theorem of_set (isFile : tree.HoldsFile place) :
    (tree.set place (.file content executable)).Keeps limit tree := by
  refine of_nodes rfl fun other => ?_
  rw [HoldsFile, node?_set _ _ _ _ isFile.ne_nil]
  split
  · exact Or.inr (Or.inr ⟨content, executable, rfl⟩)
  · exact Or.inl rfl

end Keeps

/-! ## A directory that stays within reach -/

/-- The directory is where it was, and no directory is reached in a way that did not lead there
before. -/
structure Reaches (before : FileTree) (directory : Path) (place : Place) (tree : FileTree) :
    Prop where
  keeps : tree.Keeps linkLimit before
  leads : tree.Leads directory place

namespace Reaches

variable {before : FileTree} (reaches : before.Reaches directory place tree) (entry : IsEntry name)
include reaches entry

theorem remove
    (nested : ∀ outer name, (before.node? (outer ++ [name])).isSome = true →
      before.node? outer = some .directory)
    (isFile : before.isFile (Path.join directory name) = true)
    (done : tree.remove (Path.join directory name) = .ok after) :
    before.Reaches directory place after ∧ (tree.node? (place ++ [name])).isSome = true ∧
      after = tree.erase (place ++ [name]) := by
  obtain ⟨on, node, leads, found, otherNode, rfl⟩ := remove_join_eq_ok entry done
  obtain rfl := reaches.leads.unique leads
  have noDirectory : tree.node? (place ++ [name]) ≠ some .directory := by
    rw [found]
    exact fun same => otherNode (Option.some.inj same)
  refine ⟨⟨(Keeps.of_erase (append_name_ne_nil place name)).trans reaches.keeps, ?_⟩,
    by rw [found]; rfl, rfl⟩
  refine reaches.leads.kept (.erase noDirectory fun target isLink links below => ?_)
  rcases reaches.keeps.links place name target isLink with same | blocked
  · exact reaches.keeps.blocks (Nat.le_of_lt below)
      (Leads.blocks nested (reaches.leads.kept reaches.keeps) entry same isFile links)
  · exact blocked links below

theorem write (file : tree.HoldsFile (place ++ [name])) {content : Bytes}
    (done : tree.write (Path.join directory name) content = .ok after) :
    before.Reaches directory place after ∧
      ∃ executable, after = tree.set (place ++ [name]) (.file content executable) := by
  obtain ⟨old, executable, isFile⟩ := file
  obtain ⟨-, -, rfl⟩ := write_join_eq_ok reaches.leads entry isFile done
  exact ⟨⟨(Keeps.of_set ⟨old, executable, isFile⟩).trans reaches.keeps,
    reaches.leads.kept (.set ⟨old, executable, isFile⟩)⟩, executable, rfl⟩

end Reaches

end MigrationSquash.FileTree
