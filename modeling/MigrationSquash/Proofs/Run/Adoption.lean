import MigrationSquash.Proofs.Files.Renaming
import MigrationSquash.Proofs.Run.Steps

/-!
# Giving a designer file to a migration

What the steps of an adoption leave: nothing was cleared, the file was not moved, it was not read
or not written where it is, or all was done.  Main statement: an adoption that fails spares every
file unless it failed after the file that was there had been taken away or the new one had been
moved.
-/

set_option autoImplicit false

namespace MigrationSquash

open Path (IsEntry)

variable {world after : World} {source directory : Path} {id : MigrationId}

/-- A designer file with the identity of a migration. -/
def Designer.retargeted (designer : Source) (id : MigrationId) : Source :=
  designer.withLines (Text.lines (retarget (Text.joinLines designer.lines) id))

namespace Directory

/-- How an adoption ends: what comes of it and what it leaves. -/
inductive Adopts (source target : Path) (id : MigrationId) (before : FileTree) :
    Except Failure Path → FileTree → Prop
  | notCleared (error : FileError) (differ : Path.same source target = false)
      (present : before.pathExists target = true) :
      Adopts source target id before (.error (.remove target error)) before
  | notMoved (error : FileError) {cleared : FileTree} (differ : Path.same source target = false)
      (clears : before.Clears target cleared) :
      Adopts source target id before (.error (.move source target error)) cleared
  | notRead (error : FileError) {placed : FileTree} (brings : before.Brings source target placed) :
      Adopts source target id before (.error (.read target error)) placed
  | notWritten (error : FileError) {placed : FileTree}
      (brings : before.Brings source target placed) :
      Adopts source target id before (.error (.write target error)) placed
  | done {placed after : FileTree} {designer : Source}
      (brings : before.Brings source target placed)
      (read : placed.source? target = some designer)
      (written : placed.write target (Designer.retargeted designer id).toBytes = .ok after) :
      Adopts source target id before (.ok target) after

theorem clear_eq {path : Path} {result : Except Failure Unit}
    (ran : clear path world = (result, after)) :
    result = .ok () ∧ world.tree.Clears path after.tree ∨
      (∃ error, result = .error (.remove path error)) ∧ world.tree.pathExists path = true ∧
        after.tree = world.tree := by
  have start : clear path world =
      (if world.tree.pathExists path = true then Run.removeFile path else pure ()) world := rfl
  rw [start] at ran
  split at ran
  · next present =>
      cases result with
      | ok value => exact Or.inl ⟨rfl, Or.inr ⟨present, Run.change_eq_ok ran⟩⟩
      | error failure =>
          obtain ⟨error, rfl, same⟩ := Run.change_eq_error ran
          exact Or.inr ⟨⟨error, rfl⟩, present, same⟩
  · next absent =>
      obtain ⟨rfl, rfl⟩ := Prod.mk.inj ran
      exact Or.inl ⟨rfl, Or.inl ⟨(Bool.not_eq_true _).mp absent, rfl⟩⟩

/-- What is left once the file is in place: it is read, rewritten and written. -/
theorem adopts_of_brings {target : Path} {placed : World} {before : FileTree}
    {result : Except Failure Path} (brings : before.Brings source target placed.tree)
    (ran : (do
      let designer ← Run.readSource target
      let retargeted := Designer.retarget (Text.joinLines designer.lines) id
      Run.writeSource target (designer.withLines (Text.lines retargeted))
      return target : Run Path) placed = (result, after)) :
    Adopts source target id before result after.tree := by
  cases read : Run.readSource target placed with
  | mk outcome seen =>
      cases outcome with
      | error failure =>
          obtain ⟨error, rfl, same⟩ := Run.readSource_eq_error read
          rw [Run.bind_of_error read] at ran
          obtain ⟨rfl, rfl⟩ := Prod.mk.inj ran
          rw [same]
          exact .notRead error brings
      | ok designer =>
          obtain ⟨found, rfl⟩ := Run.readSource_eq_ok read
          rw [Run.bind_of_ok read] at ran
          cases written : Run.writeSource target (Designer.retargeted designer id) placed with
          | mk outcome last =>
              cases outcome with
              | error failure =>
                  obtain ⟨error, rfl, same⟩ := Run.change_eq_error written
                  rw [← Designer.retargeted, Run.bind_of_error written] at ran
                  obtain ⟨rfl, rfl⟩ := Prod.mk.inj ran
                  rw [same]
                  exact .notWritten error brings
              | ok value =>
                  rw [← Designer.retargeted, Run.bind_of_ok written] at ran
                  obtain ⟨rfl, rfl⟩ := Prod.mk.inj ran
                  exact .done brings found (Run.change_eq_ok written)

theorem adopts {result : Except Failure Path}
    (ran : adoptDesigner source directory id world = (result, after)) :
    Adopts source (Path.join directory (Designer.fileName id)) id world.tree result
      after.tree := by
  unfold adoptDesigner at ran
  dsimp only at ran
  split at ran
  · next same => exact adopts_of_brings (.inPlace same) ran
  · next differ =>
      replace differ := (Bool.not_eq_true _).mp differ
      cases cleared : clear (Path.join directory (Designer.fileName id)) world with
      | mk outcome between =>
          rcases clear_eq cleared with ⟨rfl, clears⟩ | ⟨⟨error, rfl⟩, present, same⟩
          · rw [Run.bind_of_ok cleared] at ran
            cases moved : Run.moveFile source (Path.join directory (Designer.fileName id))
                between with
            | mk outcome placed =>
                cases outcome with
                | error failure =>
                    obtain ⟨error, rfl, same⟩ := Run.change_eq_error moved
                    rw [Run.bind_of_error moved] at ran
                    obtain ⟨rfl, rfl⟩ := Prod.mk.inj ran
                    rw [same]
                    exact .notMoved error differ clears
                | ok value =>
                    rw [Run.bind_of_ok moved] at ran
                    exact adopts_of_brings (.moved differ clears (Run.change_eq_ok moved)) ran
          · rw [Run.bind_of_error cleared] at ran
            obtain ⟨rfl, rfl⟩ := Prod.mk.inj ran
            rw [same]
            exact .notCleared error differ present

/-! ## Entries of the directory -/

section

variable {tree after : FileTree} {place : Place} {name : Text} {result : Except Failure Path}
  (nested : ∀ outer name, (tree.node? (outer ++ [name])).isSome = true →
    tree.node? outer = some .directory)
  (leads : tree.Leads directory place) (entry : IsEntry name)
  (targetEntry : IsEntry (Designer.fileName id))
  (isFile : tree.isFile (Path.join directory name) = true)
  (adopts : Adopts (Path.join directory name) (Path.join directory (Designer.fileName id)) id tree
    result after)
include nested leads entry targetEntry isFile adopts

/-- An adoption takes away what has the new name, renames the entry, and writes the file that the
entry is or leads to.  One that fails leaves out the last of these steps. -/
theorem Adopts.cases :
    (∃ failure, result = .error failure) ∧
      (after = tree ∨ after = tree.erase (place ++ [Designer.fileName id]) ∨
        tree.Renamed place name (Designer.fileName id) after) ∨
    ∃ placed found content executable,
      tree.Renamed place name (Designer.fileName id) placed ∧
      tree.Reaches directory place placed ∧
      placed.isFile (Path.join directory (Designer.fileName id)) = true ∧ placed.HoldsFile found ∧
      (found = place ++ [Designer.fileName id] ∨
        tree.resolve (Path.join directory name) = .ok found) ∧
      after = placed.set found (.file content executable) := by
  cases adopts with
  | notCleared error differ present => exact Or.inl ⟨⟨_, rfl⟩, Or.inl rfl⟩
  | notMoved error differ clears =>
      refine Or.inl ⟨⟨_, rfl⟩, ?_⟩
      rcases clears with ⟨-, rfl⟩ | ⟨-, removed⟩
      · exact Or.inl rfl
      · obtain ⟨on, node, leadsToo, -, -, rfl⟩ := FileTree.remove_join_eq_ok targetEntry removed
        obtain rfl := leads.unique leadsToo
        exact Or.inr (Or.inl rfl)
  | notRead error brings =>
      exact Or.inl ⟨⟨_, rfl⟩, Or.inr (Or.inr
        (brings.renamed entry targetEntry nested leads isFile))⟩
  | notWritten error brings =>
      exact Or.inl ⟨⟨_, rfl⟩, Or.inr (Or.inr
        (brings.renamed entry targetEntry nested leads isFile))⟩
  | @done placed _ designer brings read written =>
      have renamed := brings.renamed entry targetEntry nested leads isFile
      have placedFile := FileTree.isFile_of_source? read
      obtain ⟨found, resolved, old, executable, file⟩ := FileTree.exists_of_isFile placedFile
      obtain ⟨on, leadsToo⟩ := FileTree.exists_leads_of_resolve targetEntry resolved
      have keeps := renamed.keeps (FileTree.not_directory_of_isFile leads entry isFile)
        (fun path isLink => leads.blocks nested entry isLink isFile) FileTree.linkLimit
      obtain rfl := leads.unique (leadsToo.kept keeps)
      rw [FileTree.write_of_resolve resolved, file] at written
      exact Or.inr ⟨placed, found, _, executable, renamed, ⟨keeps, leadsToo⟩,
        placedFile, ⟨old, executable, file⟩,
        renamed.resolve_cases entry targetEntry nested leads isFile resolved
          ⟨old, executable, file⟩,
        (Except.ok.inj written).symm⟩

/-- Entries with other names stay as they are, but for a file that the entry leads to. -/
theorem Adopts.spares (other : Place) (noSource : other ≠ place ++ [name])
    (noTarget : other ≠ place ++ [Designer.fileName id]) :
    after.node? other = tree.node? other ∨
      tree.resolve (Path.join directory name) = .ok other ∧ after.HoldsFile other := by
  rcases adopts.cases nested leads entry targetEntry isFile with
    ⟨-, rfl | rfl | renamed⟩ | ⟨placed, found, content, executable, renamed, -, -, file, led, rfl⟩
  · exact Or.inl rfl
  · rw [FileTree.node?_erase _ _ _ (FileTree.append_name_ne_nil _ _), if_neg noTarget]
    exact Or.inl rfl
  · exact Or.inl (renamed.others other noSource noTarget)
  · rw [FileTree.HoldsFile, FileTree.node?_set _ _ _ _ file.ne_nil]
    split
    · next same =>
        subst same
        exact Or.inr ⟨led.resolve_left noTarget, content, executable, rfl⟩
    · exact Or.inl (renamed.others other noSource noTarget)

theorem Adopts.reaches {target : Path} (done : result = .ok target) :
    tree.Reaches directory place after := by
  rcases adopts.cases nested leads entry targetEntry isFile with
    ⟨⟨failure, failed⟩, -⟩ | ⟨placed, found, content, executable, -, reaches, -, file, -, rfl⟩
  · rw [failed] at done
    cases done
  · exact ⟨(FileTree.Keeps.of_set file).trans reaches.keeps,
      reaches.leads.kept (.set file)⟩

end

/-- Among entries that are no links an adoption puts a file under the new name. -/
theorem Adopts.nodes {tree after : FileTree} {place : Place} {name : Text} {target : Path}
    (hosts : tree.Hosts directory place) (entry : IsEntry name)
    (targetEntry : IsEntry (Designer.fileName id))
    (isFile : tree.isFile (Path.join directory name) = true)
    (adopts : Adopts (Path.join directory name) (Path.join directory (Designer.fileName id)) id tree
      (.ok target) after) :
    FileTree.checkPath (Path.join directory (Designer.fileName id)) = .ok () ∧
      Text.width (Designer.fileName id) ≤ FileTree.nameLimit ∧
      after.HoldsFile (place ++ [Designer.fileName id]) ∧
      (name ≠ Designer.fileName id → after.node? (place ++ [name]) = none) ∧
      ∀ other, other ≠ place ++ [name] → other ≠ place ++ [Designer.fileName id] →
        after.node? other = tree.node? other := by
  rcases adopts.cases hosts.nested hosts.leads entry targetEntry isFile with
    ⟨⟨failure, failed⟩, -⟩ |
      ⟨placed, found, content, executable, renamed, reaches, placedFile, file, led, rfl⟩
  · cases failed
  have plain (path : Path) : placed.node? (place ++ [Designer.fileName id]) ≠ some (.link path) := by
    rw [renamed.moved]
    exact hosts.unlinked name path
  obtain ⟨checked, short, -⟩ := (reaches.leads.isFile_join_iff targetEntry plain).1 placedFile
  -- the file that is written is the one under the new name
  have here : found = place ++ [Designer.fileName id] := by
    rcases led with isTarget | resolved
    · exact isTarget
    · -- a file under the old name alone is gone by then
      obtain ⟨-, -, rfl⟩ :=
        (hosts.leads.resolve_join_iff entry (hosts.unlinked name)).1 resolved
      by_cases same : name = Designer.fileName id
      · rw [same]
      · obtain ⟨_, _, node⟩ := file
        rw [renamed.gone same] at node
        cases node
  obtain rfl := here
  have nodes := fun other => FileTree.node?_set placed (place ++ [Designer.fileName id]) other
    (.file content executable) file.ne_nil
  refine ⟨checked, short, ⟨content, executable, by rw [nodes, if_pos rfl]⟩, fun differ => ?_,
    fun other noSource noTarget => ?_⟩
  · rw [nodes, if_neg (by simpa using differ), renamed.gone differ]
  · rw [nodes, if_neg noTarget, renamed.others other noSource noTarget]

end Directory

/-- An adoption that fails spares every file exactly if source and target are written as one path,
or what stood at the target could not be removed, or nothing stood there and either the file could
not be moved or both paths name one entry. -/
theorem adoptDesigner_error_spares_iff {failure : Failure} (sound : world.tree.Sound)
    (ran : Directory.adoptDesigner source directory id world = (.error failure, after)) :
    let target := Path.join directory (Designer.fileName id)
    (∀ place, after.tree.node? place = world.tree.node? place) ↔
      Path.same source target = true ∨ (∃ error, failure = .remove target error) ∨
        world.tree.pathExists target = false ∧
          ((∃ error, failure = .move source target error) ∨
            world.tree.entryPlace .busy source = world.tree.entryPlace .busy target) := by
  intro target
  have adopts := Directory.adopts ran
  generalize after.tree = left at adopts
  change Directory.Adopts source target id _ _ _ at adopts
  cases adopts with
  | notCleared error differ present => exact iff_of_true (fun _ => rfl) (Or.inr (Or.inl ⟨error, rfl⟩))
  | notMoved error differ clears =>
      rw [clears.spares_iff, differ]
      simp
  | notRead error brings =>
      rw [brings.spares_iff sound.nested]
      simp
  | notWritten error brings =>
      rw [brings.spares_iff sound.nested]
      simp

namespace Sample

def designerId : MigrationId := ⟨"20240101000000".toList, "Users".toList⟩

def ownDesigner : Text := "20240101000000_Users.Designer.cs".toList

def newestDesigner : Text := "20240202000000_Orders.Designer.cs".toList

/-- Text of 16 bits with half of a pair. -/
def halfPair : Bytes := [0xFF, 0xFE, 0x00, 0xD8]

/-- A designer file that cannot be decoded, and one that it is to replace. -/
def undecodable : FileTree where
  nodes := [
    (["M".toList], .directory),
    (["M".toList, ownDesigner], .file (Text.encodeUtf8 "partial class Users".toList) false),
    (["M".toList, newestDesigner], .file halfPair false)]
  current := []

/-- The file that cannot be decoded in place of the other one. -/
def replaced : FileTree where
  nodes := [
    (["M".toList], .directory),
    (["M".toList, ownDesigner], .file halfPair false)]
  current := []

theorem adopt_undecodable :
    Directory.adoptDesigner (Path.join "M".toList newestDesigner) "M".toList designerId
        (.ofTree undecodable) =
      (.error (.read (Path.join "M".toList ownDesigner) .undecodable), .ofTree replaced) := by
  decide +kernel

theorem sound_undecodable : undecodable.Sound where
  nested := FileTree.nested_of_entries (by decide)
  distinct := by decide
  noSlash := by decide

end Sample

/-- An adoption that fails because the file cannot be decoded where it was brought spares not every
file. -/
theorem adoptDesigner_error_spares_sample :
    ¬ ∀ place, Sample.replaced.node? place = Sample.undecodable.node? place := by
  intro same
  have absent : (Path.same (Path.join "M".toList Sample.newestDesigner)
      (Path.join "M".toList Sample.ownDesigner)) = false ∧
      Sample.undecodable.pathExists (Path.join "M".toList Sample.ownDesigner) = true := by
    decide
  rcases (adoptDesigner_error_spares_iff Sample.sound_undecodable
    Sample.adopt_undecodable).1 same with inPlace | ⟨error, ⟨⟩⟩ | ⟨nowhere, -⟩
  · exact Bool.noConfusion (absent.1.symm.trans inPlace)
  · exact Bool.noConfusion (absent.2.symm.trans nowhere)

/-- A designer file that cannot be decoded takes the place of the one that was there, though its
adoption fails. -/
theorem undecodable_designer_replaces :
    Directory.adoptDesigner (Path.join "M".toList Sample.newestDesigner) "M".toList
        Sample.designerId (.ofTree Sample.undecodable) =
      (.error (.read (Path.join "M".toList Sample.ownDesigner) .undecodable),
        .ofTree Sample.replaced) ∧
    Sample.undecodable.node? ["M".toList, Sample.newestDesigner] =
      some (.file Sample.halfPair false) ∧
    Sample.replaced.node? ["M".toList, Sample.newestDesigner] = none ∧
    Sample.undecodable.node? ["M".toList, Sample.ownDesigner] =
      some (.file (Text.encodeUtf8 "partial class Users".toList) false) ∧
    Sample.replaced.node? ["M".toList, Sample.ownDesigner] =
      some (.file Sample.halfPair false) :=
  ⟨Sample.adopt_undecodable, by decide, by decide, by decide, by decide⟩

end MigrationSquash
