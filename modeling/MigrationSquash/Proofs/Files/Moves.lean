import MigrationSquash.Files.Change
import MigrationSquash.Proofs.Files.Entries

/-!
# Files that are brought elsewhere

A file is brought to another path in two steps: the path is cleared, and the file is renamed.  Main
statements: clearing spares every file exactly if the path led nowhere, and bringing spares every
file exactly if nothing was cleared and both paths name one entry.
-/

set_option autoImplicit false

namespace MigrationSquash

namespace FileTree

variable {tree moved : FileTree} {path target : Path}

/-- What is left when a path is cleared of what it leads to. -/
def Clears (tree : FileTree) (path : Path) (cleared : FileTree) : Prop :=
  tree.pathExists path = false ∧ cleared = tree ∨
    tree.pathExists path = true ∧ tree.remove path = .ok cleared

/-- What is left when a file is where that of another migration belongs. -/
inductive Brings (before : FileTree) (source target : Path) : FileTree → Prop
  | inPlace (same : Path.same source target = true) : Brings before source target before
  | moved {cleared moved : FileTree} (differ : Path.same source target = false)
      (clears : before.Clears target cleared) (renamed : cleared.rename source target = .ok moved) :
      Brings before source target moved

theorem exists_of_remove (done : tree.remove path = .ok moved) :
    ∃ place, place ≠ [] ∧ tree.entryPlace .isDirectory path = .ok place ∧
      (tree.node? place).isSome = true ∧ tree.node? place ≠ some .directory ∧
      moved = tree.erase place := by
  cases named : tree.entryPlace .isDirectory path with
  | error error =>
      rw [remove, named] at done
      cases done
  | ok place =>
      rw [remove_of_entryPlace named] at done
      split at done
      · cases done
      · cases done
      · next node noDirectory found =>
          split at done
          · cases done
          · refine ⟨place, ?_, rfl, by rw [found]; rfl, ?_, (Except.ok.inj done).symm⟩
            · rintro rfl
              exact noDirectory (Option.some.inj (found.symm.trans rfl))
            · rw [found]
              exact fun same => noDirectory (Option.some.inj same)

theorem node?_isSome_of_remove (done : tree.remove path = .ok moved) {place : Place}
    (present : (moved.node? place).isSome = true) : (tree.node? place).isSome = true := by
  obtain ⟨gone, inner, -, -, -, rfl⟩ := exists_of_remove done
  rw [node?_erase _ _ _ inner] at present
  split at present
  · cases present
  · exact present

theorem entryPlace_ne_nil {unnamed : FileError} {place : Place}
    (named : tree.entryPlace unnamed path = .ok place) : place ≠ [] := by
  unfold entryPlace at named
  cases checked : checkPath path with
  | error error =>
      rw [checked] at named
      cases named
  | ok value =>
      rw [checked] at named
      cases opened : tree.resolveFrom linkLimit (startOf tree.current path)
          (((Path.segments path).filter (· ≠ [])).dropLast ++ [['.']]) with
      | error error =>
          dsimp only [Bind.bind, Except.bind] at named
          rw [opened] at named
          cases named
      | ok directory =>
          dsimp only [Bind.bind, Except.bind] at named
          rw [opened] at named
          dsimp only at named
          split at named
          · cases named
          · split at named
            · cases named
            · obtain rfl := Except.ok.inj named
              exact append_name_ne_nil _ _

/-- Nothing is left at a place that was moved elsewhere. -/
theorem node?_move_source {source target : Place} (inner : source ≠ []) (differ : source ≠ target)
    (outside : isInside target source = false) : (tree.move source target).node? source = none := by
  rw [node?, if_neg inner, move, List.lookup_eq_none_iff]
  intro entry member
  obtain ⟨⟨key, node⟩, -, rfl⟩ := List.mem_map.1 member
  rw [bne_iff_ne]
  dsimp only
  split
  · rintro same
    have front : target <+: source := ⟨_, same.symm⟩
    have shorter : target.length < source.length :=
      lt_of_le_of_ne front.length_le fun long => differ (front.eq_of_length long).symm
    rw [isInside, List.isPrefixOf_iff_prefix.2 front, decide_eq_true shorter] at outside
    cases outside
  · next apart =>
      rintro rfl
      exact apart (List.isPrefixOf_iff_prefix.2 (List.prefix_refl _))

/-- Clearing a path spares every file exactly if the path led nowhere. -/
theorem Clears.spares_iff {cleared : FileTree} (clears : tree.Clears path cleared) :
    (∀ place, cleared.node? place = tree.node? place) ↔ tree.pathExists path = false := by
  rcases clears with ⟨absent, rfl⟩ | ⟨present, removed⟩
  · exact iff_of_true (fun _ => rfl) absent
  · refine iff_of_false (fun same => ?_) (by rw [present]; exact Bool.noConfusion)
    obtain ⟨place, inner, -, found, -, rfl⟩ := exists_of_remove removed
    rw [← same place, node?_erase _ _ _ inner, if_pos rfl] at found
    cases found

section

variable (nested : ∀ outer name, (tree.node? (outer ++ [name])).isSome = true →
  tree.node? outer = some .directory)
include nested

theorem isInside_eq_false_of_moveDirectory {source target : Place} (inner : source ≠ [])
    (present : (tree.node? source).isSome = true)
    (done : tree.moveDirectory source target = .ok moved) :
    isInside target source = false ∧ moved = tree.move source target := by
  unfold moveDirectory at done
  split at done
  · cases done
  · split at done
    · next absent =>
        refine ⟨?_, (Except.ok.inj done).symm⟩
        cases below : isInside target source with
        | false => rfl
        | true =>
            rw [isInside, Bool.and_eq_true, decide_eq_true_eq] at below
            obtain ⟨more, rfl⟩ := List.isPrefixOf_iff_prefix.1 below.1
            have strict : more ≠ [] := by
              rintro rfl
              simp at below
            rw [isDirectory_of_below nested strict present] at absent
            cases absent
    · split at done
      · cases done
      · next empty =>
          refine ⟨?_, (Except.ok.inj done).symm⟩
          obtain ⟨node, found⟩ := Option.isSome_iff_exists.1 present
          obtain ⟨entry, member, rfl⟩ := List.mem_map.1 (mem_places_of_node? inner found)
          simpa using fun below => empty (List.any_eq_true.2 ⟨entry, member, below⟩)
    · cases done

/-- Renaming leaves nothing under the old name, unless both paths name the same entry. -/
theorem exists_of_rename {source target : Path} (done : tree.rename source target = .ok moved) :
    ∃ sourcePlace targetPlace, tree.entryPlace .busy source = .ok sourcePlace ∧
      tree.entryPlace .busy target = .ok targetPlace ∧
      (tree.node? sourcePlace).isSome = true ∧
      (sourcePlace = targetPlace ∧ moved = tree ∨
        sourcePlace ≠ targetPlace ∧ moved.node? sourcePlace = none) := by
  obtain ⟨sourcePlace, targetPlace, node, namedSource, namedTarget, found, moves⟩ :=
    rename_eq_ok done
  have inner := entryPlace_ne_nil namedSource
  have present : (tree.node? sourcePlace).isSome = true := by rw [found]; rfl
  refine ⟨sourcePlace, targetPlace, namedSource, namedTarget, present, ?_⟩
  rcases moves with same | ⟨differ, -, moved⟩ | ⟨differ, -, moved⟩
  · exact Or.inl same
  · obtain ⟨outside, rfl⟩ := isInside_eq_false_of_moveDirectory nested inner present moved
    exact Or.inr ⟨differ, node?_move_source inner differ outside⟩
  · obtain ⟨outside, -, rfl⟩ := moveFile_eq_ok moved
    exact Or.inr ⟨differ, node?_move_source inner differ outside⟩

theorem nested_erase {place : Place} (inner : place ≠ [])
    (noDirectory : tree.node? place ≠ some .directory) (outer : Place) (name : Text)
    (present : ((tree.erase place).node? (outer ++ [name])).isSome = true) :
    (tree.erase place).node? outer = some .directory := by
  rw [node?_erase _ _ _ inner] at present ⊢
  split at present
  · cases present
  · have holder := nested outer name present
    rw [if_neg (by rintro rfl; exact noDirectory holder)]
    exact holder

/-- Bringing a file to another path spares every file exactly if both paths name one entry. -/
theorem Brings.spares_iff {source target : Path} {placed : FileTree}
    (brings : tree.Brings source target placed) :
    (∀ place, placed.node? place = tree.node? place) ↔
      Path.same source target = true ∨ tree.pathExists target = false ∧
        tree.entryPlace .busy source = tree.entryPlace .busy target := by
  cases brings with
  | inPlace same => exact iff_of_true (fun _ => rfl) (Or.inl same)
  | moved differ clears renamed =>
      rw [differ]
      rcases clears with ⟨absent, rfl⟩ | ⟨present, removed⟩
      · obtain ⟨source, target, namedSource, namedTarget, found, same | ⟨apart, gone⟩⟩ :=
          exists_of_rename nested renamed
        · obtain ⟨rfl, rfl⟩ := same
          exact iff_of_true (fun _ => rfl)
            (Or.inr ⟨absent, namedSource.trans namedTarget.symm⟩)
        · refine iff_of_false (fun same => ?_) ?_
          · rw [← same source, gone] at found
            cases found
          · rw [namedSource, namedTarget]
            rintro (⟨⟨⟩⟩ | ⟨-, same⟩)
            exact apart (Except.ok.inj same)
      · -- what stood at the target is gone, or else what stood at the source
        rw [present]
        refine iff_of_false (fun same => ?_) (by simp)
        obtain ⟨place, inner, -, stood, noDirectory, rfl⟩ := exists_of_remove removed
        obtain ⟨source, target, -, -, found, ⟨-, rfl⟩ | ⟨-, gone⟩⟩ :=
          exists_of_rename (nested_erase nested inner noDirectory) renamed
        · rw [← same place, node?_erase _ _ _ inner, if_pos rfl] at stood
          cases stood
        · have before := node?_isSome_of_remove removed found
          rw [← same source, gone] at before
          cases before

end

end FileTree

end MigrationSquash
