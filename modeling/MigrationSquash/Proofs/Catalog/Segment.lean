import MigrationSquash.Proofs.Files.Listing

/-!
# Selections and ranges of scripts

The migrations of a directory are listed in the order of their names, which start with their
timestamps, so the migrations of a year stand together.  Main statement: what is selected is a
segment of the listing, and the range from its first to its last migration covers exactly it.
-/

set_option autoImplicit false

namespace MigrationSquash

open MigrationFile (sourceName)

/-! ## Order of names -/

namespace Text

variable {s t left right : Text}

/-- Texts that are in order start in order. -/
theorem not_lt_of_append (same : left.length = right.length)
    (ordered : ¬ right ++ t < left ++ s) : ¬ right < left := by
  induction left generalizing right with
  | nil => exact List.not_lt_nil right
  | cons c rest ih =>
      cases right with
      | nil => cases same
      | cons d more =>
          rw [List.cons_append, List.cons_append, List.cons_lt_cons_iff] at ordered
          rw [List.cons_lt_cons_iff]
          rintro (smaller | ⟨equal, later⟩)
          · exact ordered (Or.inl smaller)
          · exact ih (Nat.succ.inj same) (fun behind => ordered (Or.inr ⟨equal, behind⟩)) later

theorem map_toLower_of_digits (digits : s.all Char.isDigit = true) : s.map Char.toLower = s := by
  induction s with
  | nil => rfl
  | cons c rest ih =>
      simp only [List.all_cons, Bool.and_eq_true] at digits
      have noLetter : c.toLower = c := by
        have bounds := digits.1
        simp only [Char.isDigit, Bool.and_eq_true, decide_eq_true_eq] at bounds
        have small : ¬ 'A'.val ≤ c.val := by
          intro large
          have high := UInt32.le_iff_toNat_le.1 bounds.2
          have low := UInt32.le_iff_toNat_le.1 large
          have gap : '9'.val.toNat < 'A'.val.toNat := by decide
          omega
        exact dif_neg fun both => small both.1
      rw [List.map_cons, noLetter, ih digits.2]

end Text

namespace MigrationId

/-- What an identity that was read from a file name consists of. -/
theorem timestamp_of_parse? {stem : Text} {id : MigrationId} (read : parse? stem = some id) :
    id.timestamp.length = 14 ∧ id.timestamp.all Char.isDigit = true := by
  obtain ⟨-, valid, -⟩ := parse?_eq_some_iff.1 read
  simp only [Calendar.isTimestamp, Bool.and_eq_true, beq_iff_eq] at valid
  exact ⟨valid.1.1.1.1.1.1, valid.1.1.1.1.1.2⟩

theorem toText_eq_year_append (id : MigrationId) :
    id.toText = id.year ++ (id.timestamp.drop 4 ++ '_' :: id.name) := by
  rw [toText, year, ← List.append_assoc, List.take_append_drop]

end MigrationId

namespace FileTree

/-- The entries of a directory stand in the order of their names. -/
theorem ordered_entries (tree : FileTree) (directory : Path) :
    (tree.entries directory).Pairwise fun left right => ¬ right.1 < left.1 := by
  unfold entries
  split
  · split
    · unfold entriesAt
      refine (List.pairwise_mergeSort ?_ ?_ _).imp fun ordered => ?_
      · intro first second third before behind
        simp only [Bool.not_eq_true', decide_eq_false_iff_not] at before behind ⊢
        exact fun back => before (List.lt_of_le_of_lt (List.not_lt.1 behind) back)
      · intro first second
        simp only [Bool.or_eq_true, Bool.not_eq_true', decide_eq_false_iff_not]
        by_contra both
        rw [not_or, not_not, not_not] at both
        exact List.lt_irrefl _ (List.lt_trans both.1 both.2)
      · simpa only [Bool.not_eq_true', decide_eq_false_iff_not] using ordered
    · exact .nil
  · exact .nil

end FileTree

/-- Migrations with timestamps of digits, in the order of their years. -/
structure MigrationFile.InOrder (left right : MigrationFile) : Prop where
  dated : left.id.timestamp.all Char.isDigit = true
  nextDated : right.id.timestamp.all Char.isDigit = true
  years : ¬ right.id.year < left.id.year

namespace Directory

variable {tree : FileTree} {directory : Path}

theorem timestamp_of_mem {file : MigrationFile} (member : file ∈ migrations tree directory) :
    file.id.timestamp.length = 14 ∧ file.id.timestamp.all Char.isDigit = true := by
  obtain ⟨⟨name, node⟩, -, found⟩ := List.mem_filterMap.1 member
  cases node with
  | directory => cases found
  | link target => cases found
  | file content executable =>
      obtain ⟨id, read, rfl⟩ := Option.map_eq_some_iff.1 found
      unfold MigrationFile.idOfFileName? at read
      split at read
      · cases read
      · obtain ⟨stem, -, parsed⟩ := Option.bind_eq_some_iff.1 read
        exact MigrationId.timestamp_of_parse? parsed

/-- The years of listed migrations never go down. -/
theorem ordered_migrations (tree : FileTree) (directory : Path) :
    (migrations tree directory).Pairwise MigrationFile.InOrder := by
  have names : (migrations tree directory).Pairwise fun left right =>
      ¬ sourceName right.id < sourceName left.id := by
    refine List.Pairwise.filterMap _ ?_ (tree.ordered_entries directory)
    intro left right ordered file found other otherFound
    rwa [(migration?_eq_some found).1, (migration?_eq_some otherFound).1] at ordered
  refine names.imp_of_mem fun {left right} leftIn rightIn ordered => ?_
  have width {file : MigrationFile} (member : file ∈ migrations tree directory) :
      file.id.year.length = 4 := by
    rw [MigrationId.year, List.length_take, (timestamp_of_mem member).1]
    rfl
  rw [sourceName, sourceName, MigrationId.toText_eq_year_append, MigrationId.toText_eq_year_append,
    List.append_assoc left.id.year, List.append_assoc right.id.year] at ordered
  exact ⟨(timestamp_of_mem leftIn).2, (timestamp_of_mem rightIn).2,
    Text.not_lt_of_append ((width leftIn).trans (width rightIn).symm) ordered⟩

end Directory

/-! ## Segments -/

section Segments

variable {α : Type} {before : α → α → Prop} {accepts : α → Bool}
  (between : ∀ a b c, before a b → before b c → accepts a = true → accepts c = true →
    accepts b = true)
include between

theorem filter_eq_takeWhile {first : α} {rest : List α} (accepted : accepts first = true)
    (ordered : (first :: rest).Pairwise before) :
    rest.filter accepts = rest.takeWhile accepts := by
  induction rest with
  | nil => rfl
  | cons next others ih =>
      obtain ⟨above, later⟩ := List.pairwise_cons.1 ordered
      cases here : accepts next with
      | true =>
          have skipped : (first :: others).Pairwise before :=
            ordered.sublist ((List.sublist_cons_self next others).cons_cons first)
          rw [List.filter_cons_of_pos here, List.takeWhile_cons_of_pos here, ih skipped]
      | false =>
          have refuses : ¬ accepts next = true := by simp [here]
          rw [List.filter_cons_of_neg refuses, List.takeWhile_cons_of_neg refuses,
            List.filter_eq_nil_iff]
          intro item member taken
          exact refuses (between first next item (above next List.mem_cons_self)
            ((List.pairwise_cons.1 later).1 item member) accepted taken)

/-- What a test accepts stands together if the test accepts what stands between. -/
theorem exists_filter_segment {items : List α} (ordered : items.Pairwise before) :
    ∃ front back, items = front ++ (items.filter accepts ++ back) := by
  induction items with
  | nil => exact ⟨[], [], rfl⟩
  | cons first rest ih =>
      cases here : accepts first with
      | false =>
          obtain ⟨front, back, split⟩ := ih (List.pairwise_cons.1 ordered).2
          refine ⟨first :: front, back, ?_⟩
          rw [List.filter_cons_of_neg (by simp [here]), List.cons_append, ← split]
      | true =>
          refine ⟨[], rest.dropWhile accepts, ?_⟩
          rw [List.filter_cons_of_pos here, filter_eq_takeWhile between here ordered,
            List.nil_append, List.cons_append, List.takeWhile_append_dropWhile]

end Segments

namespace Selection

theorem map_toLower_year {file : MigrationFile}
    (digits : file.id.timestamp.all Char.isDigit = true) :
    file.id.year.map Char.toLower = file.id.year := by
  apply Text.map_toLower_of_digits
  rw [List.all_eq_true] at digits ⊢
  intro c inside
  exact digits c (List.mem_of_mem_take inside)

/-- A year stands between no two migrations of another one. -/
theorem acceptsYear_between (selection : Selection) (first second third : MigrationFile)
    (before : first.InOrder second) (behind : second.InOrder third)
    (firstAccepted : selection.acceptsYear first = true)
    (thirdAccepted : selection.acceptsYear third = true) :
    selection.acceptsYear second = true := by
  obtain ⟨year, target⟩ := selection
  cases year with
  | none => rfl
  | some year =>
      simp only [acceptsYear, Option.all_some, Text.sameIgnoringCase, beq_iff_eq,
        map_toLower_year before.dated, map_toLower_year before.nextDated,
        map_toLower_year behind.nextDated] at *
      have years := behind.years
      rw [thirdAccepted, ← firstAccepted] at years
      rw [← firstAccepted]
      exact List.le_antisymm (List.not_lt.1 years) (List.not_lt.1 before.years)

theorem exists_select_segment (selection : Selection) (tree : FileTree) (directory : Path) :
    ∃ front back, Directory.migrations tree directory =
      front ++ (selection.select (Directory.migrations tree directory) ++ back) := by
  obtain ⟨front, back, split⟩ := exists_filter_segment selection.acceptsYear_between
    (Directory.ordered_migrations tree directory)
  unfold select
  dsimp only
  split
  · exact ⟨front, back, split⟩
  · split
    · next stop _ =>
        refine ⟨front, ((Directory.migrations tree directory).filter selection.acceptsYear).drop stop
          ++ back, ?_⟩
        rw [← List.append_assoc (List.take _ _), List.take_append_drop]
        exact split
    · exact ⟨Directory.migrations tree directory, [], by simp⟩

end Selection

/-! ## Ranges -/

/-- The migration before one that is listed once is the last of those above it. -/
theorem Catalog.predecessor?_append {file : MigrationFile} {front back : List MigrationFile}
    (fresh : ∀ other ∈ front, other.id ≠ file.id) :
    Catalog.predecessor? file.id (front ++ file :: back) = front.getLast?.map (·.id) := by
  induction front with
  | nil =>
      cases back with
      | nil => rfl
      | cons next others => exact if_pos rfl
  | cons first rest ih =>
      have differs := fresh first List.mem_cons_self
      have later := ih fun other member => fresh other (List.mem_cons_of_mem _ member)
      cases rest with
      | nil => simp [Catalog.predecessor?, differs]
      | cons next others =>
          have nextDiffers := fresh next (by simp)
          rw [List.cons_append, List.cons_append, Catalog.predecessor?, if_neg differs,
            if_neg nextDiffers, List.getLast?_cons_cons]
          exact later

namespace ScriptRange

/-- The listed migrations that a script for the range runs: those behind its base, or all for the
empty database, up to and including its last one. -/
def covered (range : ScriptRange) (files : List MigrationFile) : List MigrationFile :=
  let behind :=
    if range.base = emptyDatabase then files
    else (files.dropWhile (·.id.toText ≠ range.base)).tail
  behind.takeWhile (·.id.toText ≠ range.last) ++
    (behind.dropWhile (·.id.toText ≠ range.last)).take 1

variable {files front back : List MigrationFile} {file : MigrationFile}

theorem fresh_of_nodup (distinct : ((front ++ file :: back).map (·.id.toText)).Nodup) :
    ∀ other ∈ front, other.id.toText ≠ file.id.toText := by
  intro other member same
  rw [List.map_append, List.nodup_append] at distinct
  exact distinct.2.2 _ (List.mem_map_of_mem member) _ (by simp) same

/-- A listing of distinct migrations splits where one of them stands. -/
theorem split_at (distinct : ((front ++ file :: back).map (·.id.toText)).Nodup) :
    (front ++ file :: back).takeWhile (·.id.toText ≠ file.id.toText) = front ∧
      (front ++ file :: back).dropWhile (·.id.toText ≠ file.id.toText) = file :: back := by
  have others : ∀ other ∈ front, decide (other.id.toText ≠ file.id.toText) = true := by
    intro other member
    exact decide_eq_true (fresh_of_nodup distinct other member)
  rw [List.takeWhile_append_of_pos others, List.dropWhile_append_of_pos others]
  simp

theorem toText_ne_emptyDatabase (id : MigrationId) : id.toText ≠ emptyDatabase := by
  intro same
  have mark : '_' ∈ id.toText := by simp [MigrationId.toText]
  rw [same] at mark
  revert mark
  decide

/-- A range covers what stands behind its base and not behind its last migration. -/
theorem covered_eq {range : ScriptRange} {selected : List MigrationFile} {last : MigrationFile}
    (distinct : ((front ++ (selected ++ last :: back)).map (·.id.toText)).Nodup)
    (base : range.base = (front.getLast?.map (·.id.toText)).getD emptyDatabase)
    (stop : range.last = last.id.toText) :
    range.covered (front ++ (selected ++ last :: back)) = selected ++ [last] := by
  have behind : (if range.base = emptyDatabase then front ++ (selected ++ last :: back)
      else ((front ++ (selected ++ last :: back)).dropWhile (·.id.toText ≠ range.base)).tail) =
        selected ++ last :: back := by
    rcases List.eq_nil_or_concat front with rfl | ⟨above, previous, rfl⟩
    · exact if_pos base
    · rw [List.concat_eq_append] at base distinct ⊢
      rw [List.getLast?_concat] at base
      change range.base = previous.id.toText at base
      rw [List.append_assoc, List.singleton_append] at distinct ⊢
      rw [base, if_neg (toText_ne_emptyDatabase previous.id), (split_at distinct).2]
      rfl
  have later : ((selected ++ last :: back).map (·.id.toText)).Nodup := by
    rw [List.map_append] at distinct
    exact (List.nodup_append.1 distinct).2.1
  unfold covered
  dsimp only
  rw [behind, stop, (split_at later).1, (split_at later).2]
  rfl

end ScriptRange

theorem Directory.nodup_migrations {tree : FileTree} (sound : tree.Sound) (directory : Path) :
    ((migrations tree directory).map (·.id.toText)).Nodup := by
  have names : ((migrations tree directory).map fun file => sourceName file.id).Nodup := by
    cases opened : tree.isDirectory directory with
    | true =>
        obtain ⟨place, -, -, -, entries⟩ := FileTree.exists_leads_of_isDirectory opened
        exact nodup_names sound entries
    | false =>
        have nothing : tree.entries directory = [] := by
          unfold FileTree.entries
          split
          · next place resolved =>
              refine if_neg fun isDirectory => ?_
              simp [FileTree.isDirectory, FileTree.find?, resolved, isDirectory] at opened
          · rfl
        rw [migrations, nothing]
        exact .nil
  rw [List.nodup_iff_pairwise_ne, List.pairwise_map] at names ⊢
  exact names.imp fun differ same => differ (congrArg (· ++ MigrationFile.sourceSuffix) same)

/-- What is selected of a directory is a segment of its listing.  The range of a selection starts at
the migration listed before its first one, or at the empty database, ends at its last one, and covers
exactly the selected migrations; to revert runs it backwards. -/
theorem range_covers_selected {tree : FileTree} (sound : tree.Sound) (directory : Path)
    (selection : Selection) :
    let all := Directory.migrations tree directory
    ∃ front back, all = front ++ (selection.select all ++ back) ∧
      ∀ first last, (selection.select all).head? = some first →
        (selection.select all).getLast? = some last →
        let range := ScriptRange.ofListing all first.id last.id
        range.base = (front.getLast?.map (·.id.toText)).getD ScriptRange.emptyDatabase ∧
          range.last = last.id.toText ∧ range.covered all = selection.select all ∧
          range.endpoints .up = (range.base, range.last) ∧
          range.endpoints .down = (range.endpoints .up).swap := by
  intro all
  obtain ⟨front, back, split⟩ := selection.exists_select_segment tree directory
  have distinct := Directory.nodup_migrations sound directory
  refine ⟨front, back, split, ?_⟩
  intro first last isFirst isLast range
  have base : range.base = (front.getLast?.map (·.id.toText)).getD ScriptRange.emptyDatabase := by
    obtain ⟨later, selected⟩ := List.head?_eq_some_iff.1 isFirst
    have listed : all = front ++ first :: (later ++ back) := by
      rw [← List.cons_append, ← selected]
      exact split
    have fresh : ∀ other ∈ front, other.id ≠ first.id := by
      intro other member same
      change (all.map _).Nodup at distinct
      rw [listed] at distinct
      exact ScriptRange.fresh_of_nodup distinct other member (congrArg MigrationId.toText same)
    change ((Catalog.predecessor? first.id all).map (·.toText)).getD _ = _
    rw [listed, Catalog.predecessor?_append fresh, Option.map_map]
    rfl
  refine ⟨base, rfl, ?_, rfl, rfl⟩
  obtain ⟨earlier, selected⟩ := List.getLast?_eq_some_iff.1 isLast
  have listed : all = front ++ (earlier ++ last :: back) := by
    rw [List.append_cons earlier last back, ← selected]
    exact split
  change (all.map _).Nodup at distinct
  rw [selected]
  rw [listed] at distinct ⊢
  exact ScriptRange.covered_eq distinct base rfl

namespace Sample

/-- The entry of an empty file in the directory `M`. -/
def listedEntry (name : String) : Place × Node := (["M".toList, name.toList], .file [] false)

/-- Four migrations of two years, with a designer file and a model snapshot. -/
def twoYears : FileTree :=
  ⟨[(["M".toList], .directory), listedEntry "20230105000000_Initial.cs",
    listedEntry "20240110120000_AddUsers.Designer.cs", listedEntry "20240110120000_AddUsers.cs",
    listedEntry "20240201080000_RenameEmail.cs", listedEntry "20240301000000_AddOrders.cs",
    listedEntry "AppDbContextModelSnapshot.cs"], []⟩

def listedFile (timestamp name : String) (designer : Option String) : MigrationFile :=
  ⟨⟨timestamp.toList, name.toList⟩, "M/".toList ++ timestamp.toList ++ '_' :: name.toList ++
    ".cs".toList, designer.map String.toList⟩

def initial : MigrationFile := listedFile "20230105000000" "Initial" none

def addUsers : MigrationFile :=
  listedFile "20240110120000" "AddUsers" (some "M/20240110120000_AddUsers.Designer.cs")

def renameEmail : MigrationFile := listedFile "20240201080000" "RenameEmail" none

def addOrders : MigrationFile := listedFile "20240301000000" "AddOrders" none

/-- The migrations of a year before the one that adds orders. -/
def beforeOrders : Selection := ⟨some " 2024 ".toList, some "addorders".toList⟩

theorem sound_twoYears : twoYears.Sound where
  nested := FileTree.nested_of_entries (by decide)
  distinct := by decide
  noSlash := by decide

theorem entries_twoYears : twoYears.entries "M".toList =
    ["20230105000000_Initial.cs", "20240110120000_AddUsers.Designer.cs",
      "20240110120000_AddUsers.cs", "20240201080000_RenameEmail.cs",
      "20240301000000_AddOrders.cs", "AppDbContextModelSnapshot.cs"].map fun name =>
        (name.toList, .file [] false) := by
  have resolved : twoYears.resolve "M".toList = .ok ["M".toList] := by rfl
  have opened : twoYears.node? ["M".toList] = some .directory := by rfl
  rw [FileTree.entries, resolved]
  exact (if_pos opened).trans (List.mergeSort_of_pairwise (by decide))

theorem migrations_twoYears : Directory.migrations twoYears "M".toList =
    [initial, addUsers, renameEmail, addOrders] := by
  rw [Directory.migrations, entries_twoYears]
  decide +kernel

theorem select_twoYears :
    beforeOrders.select (Directory.migrations twoYears "M".toList) = [addUsers, renameEmail] := by
  rw [migrations_twoYears]
  decide +kernel

end Sample

/-- Two migrations between others are selected, and the scripts for them start behind the one that
is listed before them. -/
theorem range_covers_selected_sample :
    let all := Directory.migrations Sample.twoYears "M".toList
    let range := ScriptRange.ofListing all Sample.addUsers.id Sample.renameEmail.id
    range.covered all = [Sample.addUsers, Sample.renameEmail] ∧
      range.endpoints .up =
        ("20230105000000_Initial".toList, "20240201080000_RenameEmail".toList) ∧
      range.endpoints .down =
        ("20240201080000_RenameEmail".toList, "20230105000000_Initial".toList) := by
  obtain ⟨front, back, split, covers⟩ :=
    range_covers_selected Sample.sound_twoYears "M".toList Sample.beforeOrders
  have selected := Sample.select_twoYears
  obtain ⟨base, last, covered, up, down⟩ := covers Sample.addUsers Sample.renameEmail
    (by rw [selected]; rfl) (by rw [selected]; rfl)
  intro all range
  have previous : range.base = "20230105000000_Initial".toList := by
    change (ScriptRange.ofListing (Directory.migrations _ _) _ _).base = _
    rw [Sample.migrations_twoYears]
    decide +kernel
  refine ⟨covered.trans selected, ?_, ?_⟩
  · rw [up, last, previous]
    rfl
  · rw [down, up, last, previous]
    rfl

end MigrationSquash
