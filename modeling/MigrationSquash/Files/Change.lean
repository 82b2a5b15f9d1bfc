import MigrationSquash.Files.Tree

/-!
# Changes of a tree

Making a file together with the directories around it, taking away all that lies at a path,
and the places at which two trees differ.  Main statement: a place is among these exactly if
the trees hold different nodes there.
-/

set_option autoImplicit false

namespace MigrationSquash.FileTree

/-- The place that names lead to from a directory.  Directories that are missing on the way are
made, and links on it are followed if they lead somewhere. -/
def makeWay (tree : FileTree) (directory : Place) : List Text → FileTree × Place
  | [] => (tree, directory)
  | [name] => (tree, directory ++ [name])
  | name :: rest =>
      if name = ['.', '.'] then tree.makeWay directory.dropLast rest
      else
        let place := directory ++ [name]
        match tree.node? place with
        | none => (tree.set place .directory).makeWay place rest
        | some (.link _) =>
            tree.makeWay ((tree.resolve (pathOf place)).toOption.getD place) rest
        | some _ => tree.makeWay place rest

/-- The tree with a node at a path.  A file that is there keeps its right to be executed. -/
def install (tree : FileTree) (path : Path) (node : Node) : FileTree :=
  let names := (Path.segments path).filter fun name => name ≠ [] && name ≠ ['.']
  let (tree, place) := tree.makeWay (startOf tree.current path) names
  match node, tree.node? place with
  | .directory, some .directory => tree
  | .file content false, some (.file _ executable) => tree.set place (.file content executable)
  | .file content false, some (.link _) =>
      (tree.write (pathOf place) content).toOption.getD tree
  | _, _ => tree.set place node

/-- The tree without what a path names and all that lies below it. -/
def removeAll (tree : FileTree) (path : Path) : Except FileError FileTree := do
  let place ← tree.entryPlace .busy path
  if (tree.node? place).isNone then .error .notFound
  else .ok { tree with nodes := tree.nodes.filter fun entry => !place.isPrefixOf entry.1 }

/-- The places at which two trees differ. -/
def changedPlaces (before after : FileTree) : List Place :=
  ((before.nodes ++ after.nodes).map (·.1)).eraseDups.filter fun place =>
    before.node? place != after.node? place

theorem mem_places_of_node? {tree : FileTree} {place : Place} {node : Node}
    (inner : place ≠ []) (found : tree.node? place = some node) :
    place ∈ tree.nodes.map (·.1) := by
  rw [node?, if_neg inner] at found
  obtain ⟨key, value⟩ := List.lookup_eq_some_iff.1 found
  obtain ⟨rest, split, -⟩ := value
  simp [split]

/-- Two trees differ exactly at the changed places. -/
theorem mem_changedPlaces {before after : FileTree} {place : Place} :
    place ∈ changedPlaces before after ↔ before.node? place ≠ after.node? place := by
  simp only [changedPlaces, List.mem_filter, List.mem_eraseDups, List.map_append,
    List.mem_append, bne_iff_ne, and_iff_right_iff_imp]
  intro differs
  have inner : place ≠ [] := by
    intro root
    subst root
    exact differs rfl
  cases foundBefore : before.node? place with
  | some node => exact Or.inl (mem_places_of_node? inner foundBefore)
  | none =>
      cases foundAfter : after.node? place with
      | some node => exact Or.inr (mem_places_of_node? inner foundAfter)
      | none => exact absurd (foundBefore.trans foundAfter.symm) differs

end MigrationSquash.FileTree
