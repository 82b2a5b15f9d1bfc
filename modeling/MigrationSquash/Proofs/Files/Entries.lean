import MigrationSquash.Proofs.Files.Ways

/-!
# Entries of a directory

What reading, writing, removing and renaming the entries of one directory do to the nodes of a
tree.  Each operation edits only entries, and edits leave the directory where its path leads; so
the statements about single operations can be put one after the other.
-/

set_option autoImplicit false

namespace MigrationSquash.FileTree

open MigrationSquash.Path (IsEntry)

variable {tree after : FileTree} {directory : Path} {place : Place} {name : Text}

/-- A directory that a path leads to and that holds no links, in a tree in which everything lies
in directories. -/
structure Hosts (tree : FileTree) (directory : Path) (place : Place) : Prop where
  leads : tree.Leads directory place
  isDirectory : tree.node? place = some .directory
  unlinked : ∀ name target, tree.node? (place ++ [name]) ≠ some (.link target)
  nested : ∀ outer name, (tree.node? (outer ++ [name])).isSome = true →
    tree.node? outer = some .directory

/-- Only entries of the directory change, and directories among them stay. -/
structure Edits (place : Place) (tree after : FileTree) : Prop where
  current : after.current = tree.current
  entries : ∀ other, after.node? other = tree.node? other ∨
    ∃ name, other = place ++ [name] ∧ tree.node? other ≠ some .directory ∧
      (after.node? other = none ∨
        ∃ content executable, after.node? other = some (.file content executable))

theorem append_name_ne_nil (place : Place) (name : Text) : place ++ [name] ≠ [] := by simp

theorem read_of_resolve {path : Path} (resolved : tree.resolve path = .ok place) :
    tree.read path =
      match tree.node? place with
      | some (.file content _) => .ok content
      | some .directory => .error .isDirectory
      | _ => .error .notFound := by
  rw [read, resolved]
  rfl

theorem write_of_resolve {path : Path} (resolved : tree.resolve path = .ok place)
    (content : Bytes) :
    tree.write path content =
      match tree.node? place with
      | some .directory => .error .isDirectory
      | some (.file _ executable) => .ok (tree.set place (.file content executable))
      | _ => .ok (tree.set place (.file content false)) := by
  rw [write, resolved]
  rfl

theorem write_eq_ok {path : Path} {content : Bytes}
    (written : tree.write path content = .ok after) :
    ∃ place executable, place ≠ [] ∧ after = tree.set place (.file content executable) := by
  cases resolved : tree.resolve path with
  | error error =>
      rw [write, resolved] at written
      cases written
  | ok found =>
      have inner (noDirectory : tree.node? found ≠ some .directory) : found ≠ [] := by
        rintro rfl
        exact noDirectory rfl
      rw [write_of_resolve resolved] at written
      split at written
      · cases written
      · next old executable file =>
          exact ⟨found, executable, inner (by rw [file]; exact nofun),
            (Except.ok.inj written).symm⟩
      · next noDirectory _ =>
          exact ⟨found, false, inner noDirectory, (Except.ok.inj written).symm⟩

theorem node?_of_write {path : Path} {content : Bytes}
    (written : tree.write path content = .ok after) (place : Place) :
    after.node? place = tree.node? place ∨
      ∃ executable, after.node? place = some (.file content executable) := by
  obtain ⟨found, executable, inner, rfl⟩ := write_eq_ok written
  rw [node?_set _ _ _ _ inner]
  split
  · exact Or.inr ⟨executable, rfl⟩
  · exact Or.inl rfl

theorem remove_of_entryPlace {path : Path} (named : tree.entryPlace .isDirectory path = .ok place) :
    tree.remove path =
      match tree.node? place with
      | none => .error .notFound
      | some .directory => .error .isDirectory
      | some _ => if endsWithSlash path then .error .notDirectory else .ok (tree.erase place) := by
  rw [remove, named]
  rfl

theorem rename_of_entryPlace {source target : Path} {sourcePlace targetPlace : Place}
    (namedSource : tree.entryPlace .busy source = .ok sourcePlace)
    (namedTarget : tree.entryPlace .busy target = .ok targetPlace) :
    tree.rename source target =
      match tree.node? sourcePlace with
      | none => .error .notFound
      | some .directory =>
          if sourcePlace = targetPlace then .ok tree else tree.moveDirectory sourcePlace targetPlace
      | some _ =>
          if endsWithSlash source || endsWithSlash target then .error .notDirectory
          else if sourcePlace = targetPlace then .ok tree
          else tree.moveFile sourcePlace targetPlace := by
  rw [rename, namedSource, namedTarget]
  rfl

theorem moveFile_eq_ok {source target : Place} (done : tree.moveFile source target = .ok after) :
    isInside target source = false ∧ tree.node? target ≠ some .directory ∧
      after = tree.move source target := by
  unfold moveFile at done
  split at done
  · cases done
  · next outside =>
      split at done
      · cases done
      · next noTarget =>
          exact ⟨(Bool.not_eq_true _).mp outside, noTarget, (Except.ok.inj done).symm⟩

/-- Renaming does nothing where both paths name the same entry, and else it moves a directory or what
is none. -/
theorem rename_eq_ok {source target : Path} (done : tree.rename source target = .ok after) :
    ∃ sourcePlace targetPlace node, tree.entryPlace .busy source = .ok sourcePlace ∧
      tree.entryPlace .busy target = .ok targetPlace ∧ tree.node? sourcePlace = some node ∧
      (sourcePlace = targetPlace ∧ after = tree ∨
        sourcePlace ≠ targetPlace ∧ node = .directory ∧
          tree.moveDirectory sourcePlace targetPlace = .ok after ∨
        sourcePlace ≠ targetPlace ∧ node ≠ .directory ∧
          tree.moveFile sourcePlace targetPlace = .ok after) := by
  cases namedSource : tree.entryPlace .busy source with
  | error error =>
      rw [rename, namedSource] at done
      cases done
  | ok sourcePlace =>
      cases namedTarget : tree.entryPlace .busy target with
      | error error =>
          rw [rename, namedSource, namedTarget] at done
          cases done
      | ok targetPlace =>
          rw [rename_of_entryPlace namedSource namedTarget] at done
          split at done
          · cases done
          · next found =>
              refine ⟨sourcePlace, targetPlace, .directory, rfl, rfl, found, ?_⟩
              split at done
              · next same => exact Or.inl ⟨same, (Except.ok.inj done).symm⟩
              · next differ => exact Or.inr (Or.inl ⟨differ, rfl, done⟩)
          · next node other found =>
              refine ⟨sourcePlace, targetPlace, node, rfl, rfl, found, ?_⟩
              split at done
              · cases done
              · split at done
                · next same => exact Or.inl ⟨same, (Except.ok.inj done).symm⟩
                · next differ => exact Or.inr (Or.inr ⟨differ, other, done⟩)

theorem mem_eraseFrom {entries : List (Place × Node)} {entry : Place × Node}
    (member : entry ∈ eraseFrom place entries) : entry.1 ≠ place ∧ entry ∈ entries := by
  induction entries with
  | nil => cases member
  | cons first rest ih =>
      obtain ⟨key, node⟩ := first
      rw [eraseFrom] at member
      split at member
      · obtain ⟨differs, inRest⟩ := ih member
        exact ⟨differs, List.mem_cons_of_mem _ inRest⟩
      · next differs =>
          rcases List.mem_cons.1 member with rfl | later
          · exact ⟨differs, List.mem_cons_self⟩
          · obtain ⟨differs, inRest⟩ := ih later
            exact ⟨differs, List.mem_cons_of_mem _ inRest⟩

/-- Moving a place below which nothing lies moves its node alone. -/
theorem lookup_moved {source target : Place} (differ : source ≠ target)
    {entries : List (Place × Node)} (vacant : ∀ entry ∈ entries, entry.1 ≠ target)
    (alone : ∀ entry ∈ entries, source.isPrefixOf entry.1 = true → entry.1 = source)
    (other : Place) :
    (entries.map fun (place, node) =>
      if source.isPrefixOf place then (target ++ place.drop source.length, node)
      else (place, node)).lookup other =
        if other = target then entries.lookup source
        else if other = source then none else entries.lookup other := by
  induction entries with
  | nil => simp
  | cons entry rest ih =>
      obtain ⟨key, node⟩ := entry
      have later := ih (fun e member => vacant e (List.mem_cons_of_mem _ member))
        fun e member => alone e (List.mem_cons_of_mem _ member)
      have noTarget : key ≠ target := vacant (key, node) List.mem_cons_self
      have whole := alone (key, node) List.mem_cons_self
      by_cases moved : source.isPrefixOf key = true
      · obtain rfl : key = source := whole moved
        simp only [List.map_cons, moved, if_true, List.drop_length, List.append_nil]
        by_cases asked : other = target
        · subst asked
          simp
        · simp only [List.lookup_cons, beq_eq_false_iff_ne.2 asked, later, if_neg asked]
          split
          · rfl
          · next differs => rw [beq_eq_false_iff_ne.2 differs]
      · have noSource : key ≠ source := by
          rintro rfl
          exact moved (List.isPrefixOf_iff_prefix.2 (List.prefix_refl _))
        simp only [List.map_cons, moved, Bool.false_eq_true, if_false, List.lookup_cons]
        by_cases asked : other = key
        · subst asked
          simp [noTarget, noSource]
        · rw [beq_eq_false_iff_ne.2 asked, later, beq_eq_false_iff_ne.2 (Ne.symm noSource)]

/-! ## Operations on an entry -/

theorem remove_join_eq_ok (entry : IsEntry name)
    (done : tree.remove (Path.join directory name) = .ok after) :
    ∃ place node, tree.Leads directory place ∧ tree.node? (place ++ [name]) = some node ∧
      node ≠ .directory ∧ after = tree.erase (place ++ [name]) := by
  cases named : tree.entryPlace .isDirectory (Path.join directory name) with
  | error error =>
      rw [remove, named] at done
      cases done
  | ok found =>
      obtain ⟨place, leads, rfl⟩ := exists_leads_of_entryPlace entry named
      rw [remove_of_entryPlace named] at done
      split at done
      · cases done
      · cases done
      · next node noDirectory isThere =>
          rw [endsWithSlash, Path.endsWith_slash_join entry] at done
          exact ⟨place, _, leads, isThere, fun same => noDirectory same,
            (Except.ok.inj done).symm⟩

theorem write_join_eq_ok (leads : tree.Leads directory place) (entry : IsEntry name)
    {old content : Bytes} {executable : Bool}
    (isFile : tree.node? (place ++ [name]) = some (.file old executable))
    (done : tree.write (Path.join directory name) content = .ok after) :
    checkPath (Path.join directory name) = .ok () ∧ Text.width name ≤ nameLimit ∧
      after = tree.set (place ++ [name]) (.file content executable) := by
  cases resolved : tree.resolve (Path.join directory name) with
  | error error =>
      rw [write, resolved] at done
      cases done
  | ok found =>
      obtain ⟨checked, short, rfl⟩ := (leads.resolve_join_iff entry
        fun target isLink => by rw [isFile] at isLink; cases isLink).1 resolved
      rw [write_of_resolve resolved, isFile] at done
      exact ⟨checked, short, (Except.ok.inj done).symm⟩

/-- Renaming moves what is under the old name, unless a directory has the new one. -/
theorem rename_join_eq_ok {source target : Text} (sourceEntry : IsEntry source)
    (targetEntry : IsEntry target) (differ : source ≠ target)
    (noDirectory : ∀ place, tree.Leads directory place →
      tree.node? (place ++ [source]) ≠ some .directory)
    (done : tree.rename (Path.join directory source) (Path.join directory target) = .ok after) :
    ∃ place node, tree.Leads directory place ∧ tree.node? (place ++ [source]) = some node ∧
      node ≠ .directory ∧ tree.node? (place ++ [target]) ≠ some .directory ∧
      after = tree.move (place ++ [source]) (place ++ [target]) := by
  obtain ⟨sourcePlace, targetPlace, node, namedSource, namedTarget, found, moves⟩ :=
    rename_eq_ok done
  obtain ⟨place, leads, rfl⟩ := exists_leads_of_entryPlace sourceEntry namedSource
  obtain ⟨other, leadsToo, rfl⟩ := exists_leads_of_entryPlace targetEntry namedTarget
  obtain rfl := leads.unique leadsToo
  rcases moves with ⟨same, -⟩ | ⟨-, rfl, -⟩ | ⟨-, otherNode, moved⟩
  · exact absurd same (by simpa using differ)
  · exact absurd found (noDirectory place leads)
  · obtain ⟨-, noTarget, rfl⟩ := moveFile_eq_ok moved
    exact ⟨place, node, leads, found, otherNode, noTarget, rfl⟩

section

variable (nested : ∀ outer name, (tree.node? (outer ++ [name])).isSome = true →
  tree.node? outer = some .directory)
include nested

theorem isDirectory_of_below {source more : Place} (strict : more ≠ [])
    (present : (tree.node? (source ++ more)).isSome = true) :
    tree.node? source = some .directory := by
  induction more using List.reverseRecOn with
  | nil => exact absurd rfl strict
  | append_singleton outer name ih =>
      rw [← List.append_assoc] at present
      have holder := nested _ _ present
      by_cases empty : outer = []
      · rwa [empty, List.append_nil] at holder
      · exact ih empty (by rw [holder]; rfl)

theorem alone {source : Place} (inner : source ≠ [])
    (noDirectory : tree.node? source ≠ some .directory) {entry : Place × Node}
    (member : entry ∈ tree.nodes) (below : source.isPrefixOf entry.1 = true) :
    entry.1 = source := by
  obtain ⟨more, split⟩ := List.isPrefixOf_iff_prefix.1 below
  by_cases empty : more = []
  · rw [← split, empty, List.append_nil]
  · refine absurd (isDirectory_of_below nested empty ?_) noDirectory
    have nonempty : entry.1 ≠ [] := by
      rw [← split]
      simp [inner]
    rw [split, node?, if_neg nonempty]
    cases found : tree.nodes.lookup entry.1 with
    | some node => rfl
    | none => simpa using List.lookup_eq_none_iff.1 found entry member

theorem node?_move {source target : Text} (differ : source ≠ target)
    (noDirectory : tree.node? (place ++ [source]) ≠ some .directory) (other : Place) :
    (tree.move (place ++ [source]) (place ++ [target])).node? other =
      if other = place ++ [target] then tree.node? (place ++ [source])
      else if other = place ++ [source] then none else tree.node? other := by
  have placesDiffer : place ++ [source] ≠ place ++ [target] := by
    simpa using differ
  by_cases root : other = []
  · subst root
    simp [node?]
  · rw [node?, if_neg root, move, lookup_moved placesDiffer
      (fun entry member => (mem_eraseFrom member).1)
      (fun entry member => alone nested (append_name_ne_nil place source) noDirectory
        (mem_eraseFrom member).2), lookup_eraseFrom, lookup_eraseFrom, if_neg placesDiffer, node?,
      if_neg (append_name_ne_nil place source), node?, if_neg root]
    split
    · rfl
    · split <;> rfl

end

namespace Hosts

variable (hosts : tree.Hosts directory place)
include hosts

theorem keeps (edits : Edits place tree after) : tree.Keeps linkLimit after where
  current := edits.current
  directories other found := by
    rcases edits.entries other with same | ⟨name, rfl, noDirectory, -⟩
    · exact same.trans found
    · exact absurd found noDirectory
  links outer last target found := by
    rcases edits.entries (outer ++ [last]) with same | ⟨name, split, -, -⟩
    · exact Or.inl (same.trans found)
    · rw [split] at found
      exact absurd found (hosts.unlinked name target)

theorem edited (edits : Edits place tree after) : after.Hosts directory place where
  leads := hosts.leads.kept (hosts.keeps edits)
  isDirectory := (hosts.keeps edits).directories _ hosts.isDirectory
  unlinked name target found := by
    rcases edits.entries (place ++ [name]) with same | ⟨other, -, -, gone | ⟨content, x, isFile⟩⟩
    · exact hosts.unlinked name target (same.symm.trans found)
    · rw [gone] at found
      cases found
    · rw [isFile] at found
      cases found
  nested outer name present := by
    apply (hosts.keeps edits).directories
    rcases edits.entries (outer ++ [name]) with same | ⟨other, split, -, -⟩
    · exact hosts.nested outer name (same ▸ present)
    · obtain ⟨rfl, -⟩ := List.append_inj' split rfl
      exact hosts.isDirectory

theorem resolve_join_iff (entry : IsEntry name) {found : Place} :
    tree.resolve (Path.join directory name) = .ok found ↔
      checkPath (Path.join directory name) = .ok () ∧ Text.width name ≤ nameLimit ∧
        found = place ++ [name] :=
  hosts.leads.resolve_join_iff entry (hosts.unlinked name)

theorem read_join_iff (entry : IsEntry name) {content : Bytes} :
    tree.read (Path.join directory name) = .ok content ↔
      checkPath (Path.join directory name) = .ok () ∧ Text.width name ≤ nameLimit ∧
        ∃ executable, tree.node? (place ++ [name]) = some (.file content executable) := by
  constructor
  · intro done
    cases resolved : tree.resolve (Path.join directory name) with
    | error error =>
        rw [read, resolved] at done
        cases done
    | ok found =>
        obtain ⟨checked, short, rfl⟩ := (hosts.resolve_join_iff entry).1 resolved
        refine ⟨checked, short, ?_⟩
        rw [read_of_resolve resolved] at done
        split at done
        · next isFile =>
            obtain rfl := Except.ok.inj done
            exact ⟨_, isFile⟩
        · cases done
        · cases done
  · rintro ⟨checked, short, executable, isFile⟩
    rw [read_of_resolve ((hosts.resolve_join_iff entry).2 ⟨checked, short, rfl⟩), isFile]

theorem write_join (entry : IsEntry name) {content : Bytes}
    (done : tree.write (Path.join directory name) content = .ok after) :
    checkPath (Path.join directory name) = .ok () ∧ Text.width name ≤ nameLimit ∧
      Edits place tree after ∧ ∃ executable, ∀ other, after.node? other =
        if other = place ++ [name] then some (.file content executable) else tree.node? other := by
  cases resolved : tree.resolve (Path.join directory name) with
  | error error =>
      rw [write, resolved] at done
      cases done
  | ok found =>
      obtain ⟨checked, short, rfl⟩ := (hosts.resolve_join_iff entry).1 resolved
      refine ⟨checked, short, ?_⟩
      have shape : tree.node? (place ++ [name]) ≠ some .directory ∧
          ∃ executable, after = tree.set (place ++ [name]) (.file content executable) := by
        rw [write_of_resolve resolved] at done
        split at done
        · cases done
        · next isFile =>
            exact ⟨by rw [isFile]; simp, _, (Except.ok.inj done).symm⟩
        · next noDirectory _ => exact ⟨noDirectory, _, (Except.ok.inj done).symm⟩
      obtain ⟨noDirectory, executable, rfl⟩ := shape
      have nodes := fun other => node?_set tree (place ++ [name]) other (.file content executable)
        (append_name_ne_nil place name)
      refine ⟨⟨rfl, fun other => ?_⟩, executable, nodes⟩
      rw [nodes]
      split
      · next same => exact Or.inr ⟨name, same, same ▸ noDirectory, Or.inr ⟨content, executable, rfl⟩⟩
      · exact Or.inl rfl

end Hosts

end MigrationSquash.FileTree
