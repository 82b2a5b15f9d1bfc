import MigrationSquash.Proofs.Files.Entries

/-!
# Listed migrations

What is listed of a directory lies in it: each listed migration is a file under the name that its
identity is written with, its designer file bears that name too, and no two bear the same name.
-/

set_option autoImplicit false

namespace MigrationSquash

open MigrationSquash.Path (IsEntry)

namespace FileTree

variable {tree : FileTree} {directory : Path} {place : Place}

/-- A tree as a file system holds one: everything lies in directories, nothing twice, and no name
holds a slash. -/
structure Sound (tree : FileTree) : Prop where
  nested : ∀ outer name, (tree.node? (outer ++ [name])).isSome = true →
    tree.node? outer = some .directory
  distinct : (tree.nodes.map (·.1)).Nodup
  noSlash : ∀ entry ∈ tree.nodes, ∀ name ∈ entry.1, '/' ∉ name

theorem nested_of_entries
    (parents : ∀ entry ∈ tree.nodes, tree.node? entry.1.dropLast = some .directory) (outer : Place)
    (name : Text) (found : (tree.node? (outer ++ [name])).isSome = true) :
    tree.node? outer = some .directory := by
  rw [node?, if_neg (by simp), List.lookup_isSome_iff] at found
  obtain ⟨entry, member, same⟩ := found
  have parent := parents entry member
  rwa [← eq_of_beq same, List.dropLast_concat] at parent

theorem isEntryOf_append (place : Place) (name : Text) :
    isEntryOf place (place ++ [name]) = true := by
  simp [isEntryOf]

theorem eq_append_of_isEntryOf {other : Place} (isEntry : isEntryOf place other = true) :
    ∃ name, other = place ++ [name] := by
  simp only [isEntryOf, Bool.and_eq_true, decide_eq_true_eq] at isEntry
  obtain ⟨rfl, nonempty⟩ := isEntry
  exact ⟨other.getLast nonempty, (List.dropLast_append_getLast nonempty).symm⟩

theorem mem_entriesAt {name : Text} {node : Node} :
    (name, node) ∈ tree.entriesAt place ↔ (place ++ [name], node) ∈ tree.nodes := by
  rw [entriesAt, List.mem_mergeSort, List.mem_filterMap]
  constructor
  · rintro ⟨⟨other, found⟩, member, listed⟩
    dsimp only at listed
    split at listed
    · next isEntry =>
        obtain ⟨last, rfl⟩ := eq_append_of_isEntryOf isEntry
        rw [List.getLast?_concat, Option.map_some, Option.some.injEq] at listed
        obtain ⟨rfl, rfl⟩ := Prod.mk.inj listed
        exact member
    · cases listed
  · intro member
    refine ⟨_, member, ?_⟩
    dsimp only
    rw [if_pos (isEntryOf_append place name), List.getLast?_concat]
    rfl

theorem nodup_entriesAt (distinct : (tree.nodes.map (·.1)).Nodup) (place : Place) :
    ((tree.entriesAt place).map (·.1)).Nodup := by
  rw [entriesAt]
  refine (List.Perm.map _ (List.mergeSort_perm _ _)).nodup_iff.2 ?_
  revert distinct
  induction tree.nodes with
  | nil => exact fun _ => List.nodup_nil
  | cons first rest ih =>
      intro distinct
      obtain ⟨fresh, later⟩ := List.nodup_cons.1 distinct
      obtain ⟨other, node⟩ := first
      rw [List.filterMap_cons]
      dsimp only
      split
      · exact ih later
      · next name found =>
          split at found
          · next isEntry =>
              obtain ⟨last, rfl⟩ := eq_append_of_isEntryOf isEntry
              rw [List.getLast?_concat, Option.map_some, Option.some.injEq] at found
              subst found
              refine List.nodup_cons.2 ⟨?_, ih later⟩
              intro again
              obtain ⟨⟨name, other⟩, member, rfl⟩ := List.mem_map.1 again
              obtain ⟨⟨key, kept⟩, inRest, listed⟩ := List.mem_filterMap.1 member
              dsimp only at listed
              split at listed
              · next isEntry' =>
                  obtain ⟨last', rfl⟩ := eq_append_of_isEntryOf isEntry'
                  rw [List.getLast?_concat, Option.map_some, Option.some.injEq] at listed
                  obtain ⟨rfl, rfl⟩ := Prod.mk.inj listed
                  exact fresh (List.mem_map_of_mem (f := (·.1)) inRest)
              · cases listed
          · cases found

/-- What is listed of a directory lies where its path leads. -/
theorem exists_leads_of_isDirectory (isDirectory : tree.isDirectory directory = true) :
    ∃ place, tree.resolve directory = .ok place ∧ tree.Leads directory place ∧
      tree.node? place = some .directory ∧ tree.entries directory = tree.entriesAt place := by
  have found : tree.find? directory = some .directory := by
    simpa [FileTree.isDirectory] using isDirectory
  unfold find? at found
  split at found
  · next place resolved =>
      have leads := resolveFrom_of_resolve resolved
      refine ⟨place, resolved, ?_, found, ?_⟩
      · rcases namesOf_eq directory with plain | slashed
        · rw [plain] at leads
          exact resolveFrom_append_dot leads found
        · rwa [slashed] at leads
      · rw [FileTree.entries, resolved]
        dsimp only
        rw [if_pos found]
  · cases found

/-- A directory whose entries are no links, where its path leads. -/
theorem Sound.exists_hosts (sound : tree.Sound) (isDirectory : tree.isDirectory directory = true)
    (unlinked : ∀ entry ∈ tree.entries directory, ∀ target, entry.2 ≠ .link target) :
    ∃ place, tree.Hosts directory place ∧ tree.entries directory = tree.entriesAt place := by
  obtain ⟨place, -, leads, found, entries⟩ := exists_leads_of_isDirectory isDirectory
  refine ⟨place, ⟨leads, found, fun name target isLink => ?_, sound.nested⟩, entries⟩
  rw [node?, if_neg (append_name_ne_nil place name)] at isLink
  obtain ⟨front, back, split, -⟩ := List.lookup_eq_some_iff.1 isLink
  refine unlinked (name, .link target) ?_ target rfl
  rw [entries, mem_entriesAt, split]
  simp

theorem node?_of_mem (distinct : (tree.nodes.map (·.1)).Nodup) {node : Node} (inner : place ≠ [])
    (member : (place, node) ∈ tree.nodes) : tree.node? place = some node := by
  rw [node?, if_neg inner]
  revert distinct member
  induction tree.nodes with
  | nil => exact fun _ member => by cases member
  | cons first rest ih =>
      intro distinct member
      obtain ⟨fresh, later⟩ := List.nodup_cons.1 distinct
      rcases List.mem_cons.1 member with rfl | inRest
      · simp
      · have differs : place ≠ first.1 := by
          rintro rfl
          exact fresh (List.mem_map_of_mem (f := (·.1)) inRest)
        rw [List.lookup_cons, beq_eq_false_iff_ne.2 differs]
        exact ih later inRest

end FileTree

namespace MigrationFile

/-- The name of the file that declares a migration. -/
def sourceName (id : MigrationId) : Text := id.toText ++ sourceSuffix

theorem idOfFileName?_eq_some {name : Text} {id : MigrationId} (found : idOfFileName? name = some id) :
    name = sourceName id ∧ Text.endsWith Designer.suffix name = false := by
  unfold idOfFileName? at found
  split at found
  · cases found
  · next plain =>
      obtain ⟨stem, cut, parsed⟩ := Option.bind_eq_some_iff.1 found
      obtain ⟨rfl, -, -⟩ := MigrationId.parse?_eq_some_iff.1 parsed
      refine ⟨Text.before?_eq_some_iff.1 cut, ?_⟩
      cases isDesigner : Text.endsWith Designer.suffix name with
      | false => rfl
      | true => simp [isDesigner] at plain

/-- The migration lies in the directory under the names that its identity gives to it. -/
structure ListedIn (tree : FileTree) (directory : Path) (file : MigrationFile) : Prop where
  path : file.path = Path.join directory (sourceName file.id)
  designer : ∀ path, file.designer = some path →
    path = Path.join directory (Designer.fileName file.id) ∧ tree.isFile path = true
  isEntry : IsEntry (sourceName file.id)
  noDesigner : Text.endsWith Designer.suffix (sourceName file.id) = false

theorem isEntry_sourceName {id : MigrationId} (noSlash : '/' ∉ sourceName id) :
    IsEntry (sourceName id) := by
  have long : 3 ≤ (sourceName id).length := by
    simp [sourceName, show sourceSuffix = ['.', 'c', 's'] from rfl]
  refine ⟨?_, noSlash, ?_, ?_⟩ <;> intro same <;> simp [same] at long

theorem isEntry_designer {id : MigrationId} (source : IsEntry (sourceName id)) :
    IsEntry (Designer.fileName id) := by
  have long : 3 ≤ (Designer.fileName id).length := by
    simp [Designer.fileName, show Designer.suffix = ".Designer.cs".toList from rfl]
  have noSlash : '/' ∉ Designer.fileName id := by
    intro member
    rcases List.mem_append.1 member with inId | inSuffix
    · exact source.noSlash (List.mem_append_left _ inId)
    · exact absurd inSuffix (by decide)
  refine ⟨?_, noSlash, ?_, ?_⟩ <;> intro same <;> simp [same] at long

theorem endsWith_designer (id : MigrationId) :
    Text.endsWith Designer.suffix (Designer.fileName id) = true := by
  have cut : Text.before? Designer.suffix (Designer.fileName id) = some id.toText :=
    Text.before?_eq_some_iff.2 rfl
  rw [Text.endsWith, cut]
  rfl

end MigrationFile

namespace Directory

variable {tree : FileTree} {directory : Path} {place : Place}

theorem migration?_eq_some {entry : Text × Node} {file : MigrationFile}
    (found : migration? tree directory entry = some file) :
    entry.1 = MigrationFile.sourceName file.id ∧
      Text.endsWith Designer.suffix entry.1 = false ∧
      file.path = Path.join directory entry.1 ∧
      ∀ path, file.designer = some path →
        path = Path.join directory (Designer.fileName file.id) ∧ tree.isFile path = true := by
  obtain ⟨name, node⟩ := entry
  cases node with
  | directory => cases found
  | link target => cases found
  | file content executable =>
      obtain ⟨id, named, rfl⟩ := Option.map_eq_some_iff.1 found
      obtain ⟨rfl, plain⟩ := MigrationFile.idOfFileName?_eq_some named
      refine ⟨rfl, plain, rfl, ?_⟩
      intro path designer
      dsimp only at designer
      split at designer
      · next isFile =>
          obtain rfl := Option.some.inj designer
          exact ⟨rfl, isFile⟩
      · cases designer

/-- Each listed migration lies in the directory under its own names. -/
theorem listedIn_of_mem (sound : tree.Sound) (entries : tree.entries directory = tree.entriesAt place)
    {file : MigrationFile} (member : file ∈ migrations tree directory) :
    file.ListedIn tree directory := by
  obtain ⟨⟨name, node⟩, inEntries, found⟩ := List.mem_filterMap.1 member
  obtain ⟨rfl, plain, path, designer⟩ := migration?_eq_some found
  rw [entries, FileTree.mem_entriesAt] at inEntries
  have noSlash := sound.noSlash _ inEntries (MigrationFile.sourceName file.id) (by simp)
  exact ⟨path, designer, MigrationFile.isEntry_sourceName noSlash, plain⟩

/-- A designer file that is there is listed with its migration. -/
theorem designer_of_mem {file : MigrationFile} (member : file ∈ migrations tree directory)
    (isFile : tree.isFile (Path.join directory (Designer.fileName file.id)) = true) :
    file.designer = some (Path.join directory (Designer.fileName file.id)) := by
  obtain ⟨⟨name, node⟩, -, found⟩ := List.mem_filterMap.1 member
  cases node with
  | directory => cases found
  | link target => cases found
  | file content executable =>
      obtain ⟨id, -, rfl⟩ := Option.map_eq_some_iff.1 found
      exact if_pos isFile

/-- Each listed migration is a file in the directory. -/
theorem holdsFile_of_mem (sound : tree.Sound)
    (entries : tree.entries directory = tree.entriesAt place) {file : MigrationFile}
    (member : file ∈ migrations tree directory) :
    tree.HoldsFile (place ++ [MigrationFile.sourceName file.id]) := by
  obtain ⟨⟨name, node⟩, inEntries, found⟩ := List.mem_filterMap.1 member
  obtain ⟨rfl, -⟩ := migration?_eq_some found
  rw [entries, FileTree.mem_entriesAt] at inEntries
  cases node with
  | directory => cases found
  | link target => cases found
  | file content executable =>
      exact ⟨content, executable, FileTree.node?_of_mem sound.distinct
        (FileTree.append_name_ne_nil _ _) inEntries⟩

theorem nodup_names (sound : tree.Sound) (entries : tree.entries directory = tree.entriesAt place) :
    ((migrations tree directory).map fun file => MigrationFile.sourceName file.id).Nodup := by
  have names := FileTree.nodup_entriesAt sound.distinct place
  rw [migrations, entries]
  revert names
  induction tree.entriesAt place with
  | nil => exact fun _ => List.nodup_nil
  | cons first rest ih =>
      intro names
      obtain ⟨fresh, later⟩ := List.nodup_cons.1 names
      rw [List.filterMap_cons]
      split
      · exact ih later
      · next file found =>
          refine List.nodup_cons.2 ⟨?_, ih later⟩
          intro again
          obtain ⟨other, member, same⟩ := List.mem_map.1 again
          obtain ⟨entry, inRest, otherFound⟩ := List.mem_filterMap.1 member
          have name := (migration?_eq_some found).1
          have otherName := (migration?_eq_some otherFound).1
          exact fresh (List.mem_map.2 ⟨entry, inRest, otherName.trans (same.trans name.symm)⟩)

end Directory

end MigrationSquash
