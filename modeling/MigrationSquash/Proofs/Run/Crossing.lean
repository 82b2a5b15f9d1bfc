import MigrationSquash.Proofs.Hazard.Calls
import MigrationSquash.Proofs.Region.Ranges
import MigrationSquash.Proofs.Run.Stray

/-!
# Hazards across procedures

A squash looks for hazards in the merged source as a whole.  Where the two procedures are apart, a
rename in the upper one comes before each drop in the lower one, so a pair that fits is reported
although the two calls never belong to one run of the migration; a rename in the lower one is never
paired with a drop in the upper one.
-/

set_option autoImplicit false

namespace MigrationSquash

open Code (Bounds Spot beforeSpot lineAt locate? locate?_eq_some_iff)
open MigrationFile (sourceName)
open Text (joinLines width)

/-! ## Places in the joined text -/

theorem Text.width_joinLines_concat (front : List Text) (last : Text) :
    width (joinLines (front ++ [last])) = width (front.flatMap (· ++ ['\n'])) + width last := by
  induction front with
  | nil => simp
  | cons line rest ih =>
      have joined := Text.joinLines_append [line] (rest ++ [last]) (by simp) (by simp)
      rw [List.cons_append, ← List.singleton_append, joined, Text.joinLines_singleton,
        Text.width_append, Text.width_cons, ih, List.flatMap_cons, Text.width_append,
        Text.width_append, Text.width_cons, Text.width_nil]
      omega

namespace Code

/-- The number of bytes before a spot in the joined text. -/
def Spot.offsetIn (lines : List Text) (spot : Spot) : Nat :=
  width (joinLines (lines.take spot.line ++ [beforeSpot lines spot]))

/-- A place of the joined text between the braces. -/
def Bounds.Encloses (bounds : Bounds) (lines : List Text) (offset : Nat) : Prop :=
  bounds.opening.offsetIn lines < offset ∧ offset < bounds.closing.offsetIn lines

instance (bounds : Bounds) (lines : List Text) (offset : Nat) :
    Decidable (bounds.Encloses lines offset) := inferInstanceAs (Decidable (_ ∧ _))

theorem width_takeBytes_le (n : Nat) (s : Text) : width (Text.takeBytes n s) ≤ width s := by
  have whole := congrArg width (Text.takeBytes_append_dropBytes n s)
  rw [Text.width_append] at whole
  omega

/-- Of two procedures that are apart all of the first one comes before the block of the second. -/
theorem Bounds.Precedes.offsetIn_lt {procedure other : Procedure} {lines : List Text}
    {first second : Bounds} (located : locate? procedure lines = some first)
    (locatedOther : locate? other lines = some second) (precedes : first.Precedes second) :
    first.closing.offsetIn lines < second.opening.offsetIn lines := by
  obtain ⟨frame, -, rfl, rfl⟩ := locate?_eq_some_iff.1 located
  obtain ⟨later, -, -, rfl⟩ := locate?_eq_some_iff.1 locatedOther
  obtain ⟨front, start, whole, number, offset, -⟩ := frame.lines_eq_closing
  have lower : front.length + 1 ≤ later.opening.line := by
    change frame.closing.line < later.above.length at precedes
    change front.length + 1 ≤ later.above.length + later.head.length
    omega
  obtain ⟨distance, far⟩ := Nat.exists_eq_add_of_le lower
  have above : frame.lines.take frame.closing.line = front := by
    rw [← number, whole, List.take_left]
  have between : frame.lines.take later.opening.line =
      front ++ (start ++ '}' :: frame.after) :: frame.below.take distance := by
    rw [far, whole, Nat.add_assoc, List.take_length_add_append, Nat.add_comm 1, List.take_succ_cons]
  have within :
      width (beforeSpot frame.lines frame.closing) ≤ width (start ++ '}' :: frame.after) := by
    rw [beforeSpot, ← number, whole, lineAt_length_append]
    exact width_takeBytes_le _ _
  change width (joinLines (frame.lines.take frame.closing.line ++
      [beforeSpot frame.lines frame.closing])) <
    width (joinLines (frame.lines.take later.opening.line ++ [_]))
  rw [above, between, Text.width_joinLines_concat, Text.width_joinLines_concat,
    List.flatMap_append, List.flatMap_cons, Text.width_append, Text.width_append,
    Text.width_append, Text.width_cons]
  have feed := '\n'.utf8Size_pos
  omega

end Code

/-! ## Pairs of calls -/

/-- The place lies in the body of the procedure. -/
def LiesIn (procedure : Procedure) (lines : List Text) (offset : Nat) : Prop :=
  ∃ bounds ∈ locate? procedure lines, bounds.Encloses lines offset

namespace Hazard

/-- The drop is of the kind and the name that the rename produces, in a scope that agrees. -/
def Fits (rename : RenameEvent) (drop : DropEvent) : Prop :=
  rename.kind = drop.kind ∧ Text.sameIgnoringCase drop.dropped rename.resulting = true ∧
    scopesAgree rename.scope drop.scope = true

theorem applies_iff {rename : RenameEvent} {drop : DropEvent} :
    applies rename drop = true ↔ Fits rename drop ∧ rename.position < drop.position := by
  simp only [applies, Fits, Bool.and_eq_true, decide_eq_true_eq]
  exact ⟨fun ⟨⟨⟨kind, order⟩, name⟩, scope⟩ => ⟨⟨kind, name, scope⟩, order⟩,
    fun ⟨⟨kind, name, scope⟩, order⟩ => ⟨⟨⟨kind, order⟩, name⟩, scope⟩⟩

/-- Both calls lie in `Up`, or both in `Down`. -/
def InOneProcedure (lines : List Text) (hazard : Hazard) : Prop :=
  ∃ procedure, LiesIn procedure lines hazard.rename.position ∧
    LiesIn procedure lines hazard.drop.position

/-- The rename lies in the upper procedure and the drop in the lower one. -/
def Crosses (lines : List Text) (rename : RenameEvent) (drop : DropEvent) : Prop :=
  ∃ upper lower first second, locate? upper lines = some first ∧ locate? lower lines = some second ∧
    first.Precedes second ∧ first.Encloses lines rename.position ∧
    second.Encloses lines drop.position

/-- The rename comes first, and one of the two lies in neither procedure. -/
def Strays (lines : List Text) (rename : RenameEvent) (drop : DropEvent) : Prop :=
  rename.position < drop.position ∧
    ((∀ procedure, ¬ LiesIn procedure lines rename.position) ∨
      ∀ procedure, ¬ LiesIn procedure lines drop.position)

variable {lines : List Text}

/-- The procedures that the lines hold are apart. -/
def AllApart (lines : List Text) : Prop :=
  ∀ procedure other first second, procedure ≠ other → locate? procedure lines = some first →
    locate? other lines = some second → first.Apart second

theorem AllApart.of_located {up down : Bounds} (locatedUp : locate? .up lines = some up)
    (locatedDown : locate? .down lines = some down) (apart : up.Apart down) : AllApart lines := by
  intro procedure other first second differ located locatedOther
  cases procedure <;> cases other
  · exact absurd rfl differ
  · obtain rfl := Option.some.inj (locatedUp.symm.trans located)
    obtain rfl := Option.some.inj (locatedDown.symm.trans locatedOther)
    exact apart
  · obtain rfl := Option.some.inj (locatedDown.symm.trans located)
    obtain rfl := Option.some.inj (locatedUp.symm.trans locatedOther)
    exact apart.symm
  · exact absurd rfl differ

theorem Crosses.position_lt {rename : RenameEvent} {drop : DropEvent}
    (crosses : Crosses lines rename drop) : rename.position < drop.position := by
  obtain ⟨upper, lower, first, second, located, locatedLower, precedes, above, below⟩ := crosses
  exact (above.2.trans (precedes.offsetIn_lt located locatedLower)).trans below.1

/-- A place lies in one procedure at most. -/
theorem AllApart.unique (apart : AllApart lines) {procedure other : Procedure} {offset : Nat}
    (inside : LiesIn procedure lines offset) (insideOther : LiesIn other lines offset) :
    procedure = other := by
  by_contra differ
  obtain ⟨first, located, starts, stops⟩ := inside
  obtain ⟨second, locatedOther, startsOther, stopsOther⟩ := insideOther
  rcases apart _ _ _ _ differ located locatedOther with precedes | follows
  · have order := precedes.offsetIn_lt located locatedOther
    omega
  · have order := follows.offsetIn_lt locatedOther located
    omega

/-- The hazards of a text pair calls of one procedure exactly if no drop in the lower procedure fits
a rename in the upper one, and none fits of which a call lies outside of both. -/
theorem all_inOneProcedure_iff (apart : AllApart lines) :
    (∀ hazard ∈ find (joinLines lines), hazard.InOneProcedure lines) ↔
      ∀ rename ∈ renameEvents (joinLines lines), ∀ drop ∈ dropEvents (joinLines lines),
        Fits rename drop → ¬ Crosses lines rename drop ∧ ¬ Strays lines rename drop := by
  constructor
  · intro inOne rename renamed drop dropped fits
    have together (order : rename.position < drop.position) :
        InOneProcedure lines ⟨rename, drop⟩ :=
      inOne _ (mem_find_iff.2 ⟨renamed, dropped, applies_iff.2 ⟨fits, order⟩⟩)
    constructor
    · intro crosses
      obtain ⟨procedure, renameInside, dropInside⟩ := together crosses.position_lt
      obtain ⟨upper, lower, first, second, located, locatedLower, precedes, above, below⟩ := crosses
      obtain rfl := apart.unique ⟨first, located, above⟩ renameInside
      obtain rfl := apart.unique ⟨second, locatedLower, below⟩ dropInside
      obtain rfl := Option.some.inj (located.symm.trans locatedLower)
      have order := precedes.offsetIn_lt located located
      exact absurd (above.1.trans above.2) (Nat.lt_asymm order)
    · rintro ⟨order, outside⟩
      obtain ⟨procedure, renameInside, dropInside⟩ := together order
      rcases outside with renameOutside | dropOutside
      · exact renameOutside procedure renameInside
      · exact dropOutside procedure dropInside
  · intro apartPairs hazard member
    obtain ⟨renamed, dropped, applies⟩ := mem_find_iff.1 member
    obtain ⟨fits, order⟩ := applies_iff.1 applies
    obtain ⟨noCross, noStray⟩ := apartPairs _ renamed _ dropped fits
    obtain ⟨procedure, renameInside⟩ : ∃ procedure, LiesIn procedure lines hazard.rename.position := by
      by_contra outside
      exact noStray ⟨order, Or.inl (not_exists.1 outside)⟩
    obtain ⟨other, dropInside⟩ : ∃ procedure, LiesIn procedure lines hazard.drop.position := by
      by_contra outside
      exact noStray ⟨order, Or.inr (not_exists.1 outside)⟩
    by_cases same : procedure = other
    · subst same
      exact ⟨procedure, renameInside, dropInside⟩
    · obtain ⟨first, located, renameBounds⟩ := renameInside
      obtain ⟨second, locatedOther, dropBounds⟩ := dropInside
      rcases apart _ _ _ _ same located locatedOther with precedes | follows
      · exact absurd ⟨_, _, _, _, located, locatedOther, precedes, renameBounds, dropBounds⟩ noCross
      · have upwards := follows.offsetIn_lt locatedOther located
        have below := (dropBounds.2.trans upwards).trans renameBounds.1
        exact absurd order (Nat.lt_asymm below)

end Hazard

/-- A squash reports only hazards between calls of one procedure exactly if in the merged source no
drop in the lower procedure fits a rename in the upper one, and none fits of which a call lies
outside of both; and it converts exactly if it reports a hazard. -/
theorem hazards_in_one_procedure_iff {scripts : ScriptSource} {options : SquashOptions}
    {before after : World} {report : SquashReport}
    (ran : squash scripts options before = (.ok (.squashed report), after))
    (apart : Hazard.AllApart (Squash.mergedLines options before.tree)) :
    let lines := Squash.mergedLines options before.tree
    ((∀ hazard ∈ report.hazards, hazard.InOneProcedure lines) ↔
        ∀ rename ∈ renameEvents (joinLines lines), ∀ drop ∈ dropEvents (joinLines lines),
          Hazard.Fits rename drop →
            ¬ Hazard.Crosses lines rename drop ∧ ¬ Hazard.Strays lines rename drop) ∧
      (report.conversion = .notNeeded ↔ report.hazards = []) := by
  intro lines
  obtain ⟨hazards, needed⟩ := Squash.reports_hazards ran
  refine ⟨?_, needed⟩
  rw [hazards]
  exact Hazard.all_inOneProcedure_iff apart

namespace Sample

/-- A migration that renames a column and drops another one, in the procedures that are given. -/
def renamesAndDrops (up down : Text) : Migration where
  id := accounts
  source := {
    lines := [
      "class A \x7b".toList,
      "    void Up(M m) \x7b ".toList ++ up ++ " \x7d".toList,
      "    void Down(M m) \x7b ".toList ++ down ++ " \x7d".toList,
      "\x7d".toList]
    newline := .lineFeed
    marked := false }

def renameCall : Text := "m.RenameColumn(\"a\", \"t\", \"b\");".toList

def dropCall : Text := "m.DropColumn(\"b\", \"t\");".toList

def crossing : Alone where
  migration := renamesAndDrops renameCall dropCall
  listed := by decide +kernel
  read := by decide +kernel

def sequential : Alone where
  migration := renamesAndDrops (renameCall ++ dropCall) []
  listed := by decide +kernel
  read := by decide +kernel

/-- The merged source, with the bodies that the procedures hold then. -/
def mergedBodies (up down : List Text) : List Text :=
  "class A \x7b".toList :: "    void Up(M m) \x7b".toList :: up ++
    ["    \x7d".toList, "    void Down(M m) \x7b".toList] ++ down ++
    ["    \x7d".toList, "\x7d".toList]

/-- The block of the migration with a statement in it. -/
def blockOf (statement : Text) : List Text := [
  "        \x7b".toList,
  "            // Squashed from 20240101000000_A".toList,
  "            ".toList ++ statement,
  "        \x7d".toList]

def crossingLines : List Text := mergedBodies (blockOf renameCall) (blockOf dropCall)

def sequentialLines : List Text := mergedBodies (blockOf (renameCall ++ dropCall)) []

/-- The hazard with its drop at a position. -/
def droppedAt (position : Nat) : Hazard :=
  ⟨⟨.column, some ['t'], some ['a'], ['b'], 98⟩, ⟨.column, some ['t'], ['b'], position⟩⟩

def convertedFor (hazard : Hazard) : SquashReport where
  primary := (fileOf crossing.migration).path
  designer := none
  squashed := [accounts]
  removed := []
  hazards := [hazard]
  conversion := .converted

/-- The migration with scripts in both procedures. -/
def scripted : World where
  tree := ⟨[entryOf crossing.migration (crossing.migration.source.withLines (mergedBodies
      ["        migrationBuilder.Sql(@\"SELECT 1;\");".toList] [])), ([directory], .directory)], []⟩
  output := []
  warnings := [
    "Warning: No designer file found for 20240101000000_A".toList,
    "Warning: column 'b' is renamed from 'a' and later dropped (in 't')".toList]
  requests := requests accounts

theorem run_crossing :
    squash (givenScripts "SELECT 1;".toList) withProject (single crossing.migration) =
        (.ok (.squashed (convertedFor (droppedAt 234))), scripted) ∧
      Squash.mergedLines withProject (single crossing.migration).tree = crossingLines := by
  constructor
  · refine Run.bind_eq_ok_iff.2 ⟨(), _, rfl, Run.bind_eq_ok_iff.2
      ⟨_, _, listed_single crossing.listed, ?_⟩⟩
    decide +kernel
  · rw [crossing.mergedLines]
    decide +kernel

theorem run_sequential :
    squash (givenScripts "SELECT 1;".toList) withProject (single sequential.migration) =
        (.ok (.squashed (convertedFor (droppedAt 128))), scripted) ∧
      Squash.mergedLines withProject (single sequential.migration).tree = sequentialLines := by
  constructor
  · refine Run.bind_eq_ok_iff.2 ⟨(), _, rfl, Run.bind_eq_ok_iff.2
      ⟨_, _, listed_single sequential.listed, ?_⟩⟩
    decide +kernel
  · rw [sequential.mergedLines]
    decide +kernel

theorem located_crossing :
    locate? .up crossingLines = some ⟨1, ⟨1, 17⟩, ⟨6, 4⟩⟩ ∧
      locate? .down crossingLines = some ⟨7, ⟨7, 19⟩, ⟨12, 4⟩⟩ := by
  decide

theorem located_sequential :
    locate? .up sequentialLines = some ⟨1, ⟨1, 17⟩, ⟨6, 4⟩⟩ ∧
      locate? .down sequentialLines = some ⟨7, ⟨7, 19⟩, ⟨8, 4⟩⟩ := by
  decide

end Sample

/-- A rename and a drop in `Up` are reported, and nothing that fits lies across the procedures. -/
theorem hazards_in_one_procedure_sample :
    Hazard.AllApart Sample.sequentialLines ∧
      Hazard.InOneProcedure Sample.sequentialLines (Sample.droppedAt 128) ∧
      ∀ rename ∈ renameEvents (joinLines Sample.sequentialLines),
        ∀ drop ∈ dropEvents (joinLines Sample.sequentialLines), Hazard.Fits rename drop →
          ¬ Hazard.Crosses Sample.sequentialLines rename drop ∧
            ¬ Hazard.Strays Sample.sequentialLines rename drop := by
  obtain ⟨up, down⟩ := Sample.located_sequential
  have apart : Hazard.AllApart Sample.sequentialLines := .of_located up down (by decide)
  have inUp : Hazard.InOneProcedure Sample.sequentialLines (Sample.droppedAt 128) :=
    ⟨.up, ⟨_, up, by decide +kernel⟩, ⟨_, up, by decide +kernel⟩⟩
  have whole := (hazards_in_one_procedure_iff Sample.run_sequential.1
    (Sample.run_sequential.2 ▸ apart)).1
  rw [Sample.run_sequential.2] at whole
  exact ⟨apart, inUp, whole.1 fun hazard member => List.mem_singleton.1 member ▸ inUp⟩

/-- A squash converts for a rename in `Up` and a drop in `Down`. -/
theorem crossing_pair_converts :
    squash (Sample.givenScripts "SELECT 1;".toList) Sample.withProject
        (Sample.single Sample.crossing.migration) =
      (.ok (.squashed (Sample.convertedFor (Sample.droppedAt 234))), Sample.scripted) ∧
    Squash.mergedLines Sample.withProject (Sample.single Sample.crossing.migration).tree =
      Sample.crossingLines ∧
    (Sample.convertedFor (Sample.droppedAt 234)).conversion = .converted ∧
    ∃ hazard ∈ (Sample.convertedFor (Sample.droppedAt 234)).hazards,
      LiesIn .up Sample.crossingLines hazard.rename.position ∧
      LiesIn .down Sample.crossingLines hazard.drop.position ∧
      ¬ hazard.InOneProcedure Sample.crossingLines := by
  obtain ⟨up, down⟩ := Sample.located_crossing
  have apart : Hazard.AllApart Sample.crossingLines := .of_located up down (by decide)
  have renameInUp : LiesIn .up Sample.crossingLines 98 := ⟨_, up, by decide +kernel⟩
  have dropInDown : LiesIn .down Sample.crossingLines 234 := ⟨_, down, by decide +kernel⟩
  refine ⟨Sample.run_crossing.1, Sample.run_crossing.2, rfl, Sample.droppedAt 234,
    List.mem_singleton_self _, renameInUp, dropInDown, ?_⟩
  rintro ⟨procedure, renameInside, dropInside⟩
  obtain rfl := apart.unique renameInUp renameInside
  cases apart.unique dropInDown dropInside

end MigrationSquash
