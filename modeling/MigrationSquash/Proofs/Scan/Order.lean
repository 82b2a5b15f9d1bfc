import MigrationSquash.Proofs.Scan.Spots

/-!
# The order of structural braces

A scan lists the structural braces in the order in which they stand.  Main statements: what
follows a brace in the list is what stands behind it, and a scan that starts anew at a line finds
the braces that the scan of all lines finds from there on, if that line starts in code.
-/

set_option autoImplicit false

namespace MigrationSquash.Code

/-- One place stands before another one. -/
def Spot.Before (spot other : Spot) : Prop :=
  spot.line < other.line ∨ spot.line = other.line ∧ spot.offset < other.offset

instance (spot other : Spot) : Decidable (spot.Before other) :=
  inferInstanceAs (Decidable (_ ∨ _ ∧ _))

namespace Spot

variable {spot other third : Spot}

theorem Before.irrefl (spot : Spot) : ¬ spot.Before spot := by
  unfold Before
  omega

theorem Before.asymm (before : spot.Before other) : ¬ other.Before spot := by
  unfold Before at *
  omega

theorem Before.trans (first : spot.Before other) (second : other.Before third) :
    spot.Before third := by
  unfold Before at *
  omega

theorem Before.line_le (before : spot.Before other) : spot.line ≤ other.line := by
  unfold Before at before
  omega

end Spot

namespace Mode

theorem le_offset_of_mem_braces {mode : Mode} {offset : Nat} {s : Text} {brace : Brace}
    (member : brace ∈ mode.braces offset s) : offset ≤ brace.offset := by
  obtain ⟨left, right, found⟩ := List.append_of_mem member
  obtain ⟨before, after, -, -, place, -⟩ := exists_of_braces_eq_append found
  omega

theorem pairwise_braces (mode : Mode) (offset : Nat) (s : Text) :
    (mode.braces offset s).Pairwise fun brace other => brace.offset < other.offset := by
  induction s generalizing mode offset with
  | nil => exact .nil
  | cons c rest ih =>
      have positive := c.utf8Size_pos
      rw [braces]
      cases mode.braceAt? c with
      | none => exact ih _ _
      | some kind =>
          refine List.pairwise_cons.2 ⟨fun other later => ?_, ih _ _⟩
          have behind := le_offset_of_mem_braces later
          change offset < other.offset
          omega

theorem bounds_of_mem_spots {mode : Mode} {number offset : Nat} {lines : List Text}
    {place : Spot × BraceKind} (member : place ∈ mode.spots number offset lines) :
    number ≤ place.1.line ∧ place.1.line < number + lines.length := by
  obtain ⟨left, right, found⟩ := List.append_of_mem member
  obtain ⟨above, before, after, below, rfl, -, onLine, -⟩ := exists_of_spots_eq_append found
  rw [List.length_append, List.length_cons]
  omega

theorem pairwise_spots (mode : Mode) (number offset : Nat) (lines : List Text) :
    (mode.spots number offset lines).Pairwise fun place other => place.1.Before other.1 := by
  induction lines generalizing mode number offset with
  | nil => exact .nil
  | cons line rest ih =>
      rw [spots, List.pairwise_append]
      refine ⟨?_, ih _ _ _, ?_⟩
      · rw [List.pairwise_map]
        exact (mode.pairwise_braces offset line).imp fun before => Or.inr ⟨rfl, before⟩
      · intro place here other later
        obtain ⟨brace, -, rfl⟩ := List.mem_map.1 here
        have below := (bounds_of_mem_spots later).1
        exact Or.inl below

end Mode

/-- What follows a brace in a list in order is what stands behind it. -/
theorem filter_before_eq {left right : List (Spot × BraceKind)} {place : Spot × BraceKind}
    (ordered : (left ++ place :: right).Pairwise fun first second => first.1.Before second.1) :
    (left ++ place :: right).filter (fun other => place.1.Before other.1) = right := by
  obtain ⟨-, rights, lefts⟩ := List.pairwise_append.1 ordered
  obtain ⟨behind, -⟩ := List.pairwise_cons.1 rights
  have none : left.filter (fun other => place.1.Before other.1) = [] := by
    rw [List.filter_eq_nil_iff]
    intro other member
    simpa using (lefts other member place List.mem_cons_self).asymm
  have all : right.filter (fun other => place.1.Before other.1) = right := by
    rw [List.filter_eq_self]
    intro other member
    simpa using behind other member
  rw [List.filter_append, none, List.nil_append,
    List.filter_cons_of_neg (by simpa using Spot.Before.irrefl place.1), all]

/-- The structural braces of the lines of a file. -/
def structural (lines : List Text) : List (Spot × BraceKind) := bracesFrom .code 0 lines

theorem structural_eq_spots (lines : List Text) : structural lines = Mode.code.spots 0 0 lines :=
  bracesFrom_eq_spots .code 0 lines

theorem pairwise_bracesFrom (carry : Carry) (number : Nat) (lines : List Text) :
    (bracesFrom carry number lines).Pairwise fun place other => place.1.Before other.1 := by
  rw [bracesFrom_eq_spots]
  exact carry.mode.pairwise_spots number 0 lines

theorem bracesFrom_append (carry : Carry) (number : Nat) (left right : List Text) :
    bracesFrom carry number (left ++ right) =
      bracesFrom carry number left ++
        bracesFrom (carry.mode.runLines left).carry (number + left.length) right := by
  induction left generalizing carry number with
  | nil => simp [bracesFrom]
  | cons line rest ih =>
      rw [List.cons_append, bracesFrom, bracesFrom, ih, scanLine_eq_scan, List.append_assoc,
        List.length_cons, Nat.add_right_comm, Nat.add_assoc]
      rfl

section Restart

variable {above : List Text} (rest : List Text) (ends : (Mode.code.runLines above).carry = .code)
include ends

/-- Behind lines that leave nothing open the scan may start anew. -/
theorem structural_append :
    structural (above ++ rest) = structural above ++ bracesFrom .code above.length rest := by
  have whole := bracesFrom_append .code 0 above rest
  rw [Nat.zero_add, show Carry.code.mode = Mode.code from rfl, ends] at whole
  exact whole

theorem mem_bracesFrom_iff (place : Spot × BraceKind) :
    place ∈ bracesFrom .code above.length rest ↔
      place ∈ structural (above ++ rest) ∧ above.length ≤ place.1.line := by
  rw [structural_append rest ends, List.mem_append]
  constructor
  · intro later
    refine ⟨Or.inr later, ?_⟩
    rw [bracesFrom_eq_spots] at later
    exact (Mode.bounds_of_mem_spots later).1
  · rintro ⟨earlier | later, below⟩
    · rw [structural_eq_spots] at earlier
      have inside := (Mode.bounds_of_mem_spots earlier).2
      omega
    · exact later

/-- What stands behind a place below is found by the scan that starts anew. -/
theorem filter_before_structural {spot : Spot} (below : above.length ≤ spot.line) :
    (structural (above ++ rest)).filter (fun place => spot.Before place.1) =
      (bracesFrom .code above.length rest).filter (fun place => spot.Before place.1) := by
  have none : (structural above).filter (fun place => spot.Before place.1) = [] := by
    rw [List.filter_eq_nil_iff]
    intro place earlier
    rw [structural_eq_spots] at earlier
    have inside := (Mode.bounds_of_mem_spots earlier).2
    have behind : ¬ spot.Before place.1 := fun before => absurd before.line_le (by omega)
    simpa using behind
  rw [structural_append rest ends, List.filter_append, none, List.nil_append]

end Restart

end MigrationSquash.Code
