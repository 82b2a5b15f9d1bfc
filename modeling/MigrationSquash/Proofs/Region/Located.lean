import MigrationSquash.Proofs.Region.Slices
import MigrationSquash.Proofs.Scan.ClosedLines
import MigrationSquash.Proofs.Scan.Order

/-!
# Where a procedure is located

What it means that a procedure is located, and that it is not, said of the structural braces that
a scan of the whole file finds.  The search itself starts anew at the declaration, skips closing
braces and counts the depth from there.  Main statement: the two agree for every file, and no body
is cut out of a file or put into it at a place where a line cannot be cut.
-/

set_option autoImplicit false

namespace MigrationSquash.Code

variable {procedure : Procedure}

/-- The first structural brace that opens a block on the declaring line or below it. -/
structure OpensAt (procedure : Procedure) (lines : List Text) (declaration : Nat)
    (opening : Spot) : Prop where
  declared : findDeclaration? procedure lines = some declaration
  opens : (opening, .opening) ∈ structural lines
  head : declaration ≤ opening.line
  first : ∀ spot, (spot, .opening) ∈ structural lines → declaration ≤ spot.line →
    spot = opening ∨ opening.Before spot

/-- Two places delimit the body of the procedure: structural braces stand there, in their order,
the first one opens the first block from the declaration on, and what is between them is closed. -/
structure Bounds.Delimits (procedure : Procedure) (lines : List Text) (bounds : Bounds) :
    Prop where
  opens : OpensAt procedure lines bounds.declaration bounds.opening
  placed : bounds.Placed lines
  closes : (bounds.closing, .closing) ∈ structural lines
  between : ClosedLines (bounds.pieces lines)

/-- Why a procedure is not located. -/
inductive Unlocated (procedure : Procedure) (lines : List Text) : Prop
  | undeclared (silent : ∀ pair ∈ withCarry .code lines, declares procedure pair = false)
  | unopened (declaration : Nat) (declared : findDeclaration? procedure lines = some declaration)
      (blockless : ∀ spot, (spot, .opening) ∈ structural lines → spot.line < declaration)
  | unclosed (declaration : Nat) (opening : Spot)
      (opens : OpensAt procedure lines declaration opening)
      (never : NeverBelow 0
        (((structural lines).filter fun place => opening.Before place.1).map (·.2)))

section Declared

variable {above : List Text} {line : Text} {rest : List Text}
  (clear : Clear procedure .code above)
include clear

/-- What stands behind the first brace that opens a block. -/
theorem behind_eq_filter {skipped behind : List (Spot × BraceKind)} {opening : Spot}
    (split : bracesFrom .code above.length (line :: rest) =
      skipped ++ (opening, .opening) :: behind) (head : above.length ≤ opening.line) :
    (structural (above ++ line :: rest)).filter (fun place => opening.Before place.1) = behind := by
  have ordered := pairwise_bracesFrom .code above.length (line :: rest)
  rw [filter_before_structural (line :: rest) clear.ends head]
  rw [split] at ordered ⊢
  exact filter_before_eq ordered

/-- No block is opened from a line on, read off the search or off a scan of the whole file. -/
theorem blockless_iff :
    (∀ kind ∈ (bracesFrom .code above.length (line :: rest)).map (·.2), kind = .closing) ↔
      ∀ spot, (spot, .opening) ∈ structural (above ++ line :: rest) → spot.line < above.length := by
  have restart := mem_bracesFrom_iff (line :: rest) clear.ends
  constructor
  · intro allClosing spot inFile
    by_contra below
    have member := (restart (spot, .opening)).2 ⟨inFile, Nat.not_lt.1 below⟩
    cases allClosing .opening (List.mem_map_of_mem member)
  · intro blockless kind member
    obtain ⟨⟨spot, kind⟩, place, rfl⟩ := List.mem_map.1 member
    cases kind with
    | closing => rfl
    | opening =>
        obtain ⟨inFile, below⟩ := (restart _).1 place
        exact absurd (blockless spot inFile) (Nat.not_lt.2 below)

variable (declared : declares procedure (.code, line) = true)
include declared

theorem findDeclaration?_eq_length :
    findDeclaration? procedure (above ++ line :: rest) = some above.length :=
  findDeclaration?_eq_some_iff.2 ⟨above, line, rest, rfl, rfl, clear, declared⟩

theorem locate?_eq_firstBlock? :
    locate? procedure (above ++ line :: rest) =
      (firstBlock? (bracesFrom .code above.length (line :: rest))).map
        fun block => ⟨above.length, block.1, block.2⟩ := by
  rw [locate?, findDeclaration?_eq_length clear declared]
  simp only [Option.bind_eq_bind, Option.bind_some, List.drop_left]
  cases firstBlock? (bracesFrom .code above.length (line :: rest)) <;> rfl

/-- The first brace that opens a block, found by the search or by a scan of the whole file. -/
theorem opensAt_iff {opening : Spot} :
    OpensAt procedure (above ++ line :: rest) above.length opening ↔
      ∃ skipped behind, bracesFrom .code above.length (line :: rest) =
        skipped ++ (opening, .opening) :: behind ∧
        ∀ kind ∈ skipped.map (·.2), kind = .closing := by
  have ordered := pairwise_bracesFrom .code above.length (line :: rest)
  have restart := mem_bracesFrom_iff (line :: rest) clear.ends
  constructor
  · intro opensAt
    obtain ⟨skipped, behind, split⟩ :=
      List.append_of_mem ((restart _).2 ⟨opensAt.opens, opensAt.head⟩)
    refine ⟨skipped, behind, split, ?_⟩
    intro kind member
    obtain ⟨⟨spot, kind⟩, place, rfl⟩ := List.mem_map.1 member
    cases kind with
    | closing => rfl
    | opening =>
        -- an opening brace before the first one
        rw [split] at ordered
        have before := (List.pairwise_append.1 ordered).2.2 _ place _ List.mem_cons_self
        obtain ⟨inFile, below⟩ := (restart (spot, .opening)).1 (by
          rw [split]
          exact List.mem_append_left _ place)
        rcases opensAt.first spot inFile below with rfl | after
        · exact absurd before (Spot.Before.irrefl _)
        · exact absurd after before.asymm
  · rintro ⟨skipped, behind, split, allClosing⟩
    obtain ⟨inFile, below⟩ := (restart (opening, .opening)).1 (by rw [split]; simp)
    refine ⟨findDeclaration?_eq_length clear declared, inFile, below, ?_⟩
    intro spot inFile' below'
    have member := (restart (spot, .opening)).2 ⟨inFile', below'⟩
    rw [split] at ordered member
    rcases List.mem_append.1 member with inSkipped | inRest
    · cases allClosing .opening (List.mem_map_of_mem inSkipped)
    · rcases List.mem_cons.1 inRest with same | later
      · exact Or.inl (Prod.mk.inj same).1
      · exact Or.inr (List.rel_of_pairwise_cons (List.pairwise_append.1 ordered).2.1 later)

end Declared

/-- A frame that holds delimits the body. -/
theorem Frame.Holds.delimits {frame : Frame} (holds : frame.Holds procedure) :
    frame.bounds.Delimits procedure frame.lines := by
  obtain ⟨rest, start⟩ := frame.region_eq_cons
  have whole : frame.lines = frame.above ++ frame.declaration :: (rest ++ frame.below) := by
    rw [Frame.lines, start]
    rfl
  have split := frame.spots_lines holds
  rw [start, List.cons_append, show Mode.code = Carry.code.mode from rfl,
    ← bracesFrom_eq_spots] at split
  have closing := (mem_bracesFrom_iff (frame.declaration :: (rest ++ frame.below))
    holds.clear.ends (frame.closing, .closing)).1 (by rw [split]; simp)
  rw [← whole] at closing
  refine ⟨?_, frame.placed, closing.1, ?_⟩
  · rw [whole]
    refine (opensAt_iff holds.clear holds.declares).2 ⟨_, _, split, ?_⟩
    rw [Mode.map_snd_spots]
    exact holds.noBlock
  · rw [frame.pieces_bounds, closedLines_iff]
    refine ⟨holds.balanced, ?_⟩
    rw [Frame.pieces, Mode.runLines_append, Mode.runLines_cons, Mode.runLines_nil]
    exact (Carry.carry_mode _).trans (Mode.carry_of_isCode holds.closes)

theorem Bounds.Delimits.locate?_eq {lines : List Text} {bounds : Bounds}
    (delimits : bounds.Delimits procedure lines) : locate? procedure lines = some bounds := by
  obtain ⟨opens, placed, closes, between⟩ := delimits
  obtain ⟨above, line, rest, rfl, number, clear, declared⟩ :=
    findDeclaration?_eq_some_iff.1 opens.declared
  obtain ⟨declaration, opening, closing⟩ := bounds
  obtain rfl : declaration = above.length := number
  have head : above.length ≤ opening.line := opens.head
  obtain ⟨skipped, behind, split, noBlock⟩ := (opensAt_iff clear declared).1 opens
  have later : opening.Before closing :=
    (Nat.lt_or_eq_of_le placed.order).imp_right fun same => ⟨same, placed.oneLine same⟩
  have member : (closing, .closing) ∈ behind := by
    rw [← behind_eq_filter clear split head]
    exact List.mem_filter.2 ⟨closes, by simpa using later⟩
  obtain ⟨inner, others, rfl⟩ := List.append_of_mem member
  rw [bracesFrom_eq_spots] at split
  obtain ⟨frame, lines, bounds, -, holds⟩ := exists_frame_of_spots clear declared split noBlock
  rw [lines, bounds] at between ⊢
  rw [frame.pieces_bounds, closedLines_iff] at between
  exact (holds between.1).locate?_eq

theorem locate?_eq_none_iff {lines : List Text} :
    locate? procedure lines = none ↔ Unlocated procedure lines := by
  cases found : findDeclaration? procedure lines with
  | none =>
      have silent : ∀ pair ∈ withCarry .code lines, declares procedure pair = false := by
        simpa [findDeclaration?] using found
      exact ⟨fun _ => .undeclared silent, fun _ => by rw [locate?, found]; rfl⟩
  | some declaration =>
      obtain ⟨above, line, rest, rfl, rfl, clear, declared⟩ :=
        findDeclaration?_eq_some_iff.1 found
      rw [locate?_eq_firstBlock? clear declared, Option.map_eq_none_iff, firstBlock?_eq_none_iff,
        blockless_iff clear]
      constructor
      · rintro (blockless | ⟨skipped, opening, behind, split, allClosing, never⟩)
        · exact .unopened _ found blockless
        · have opens := (opensAt_iff clear declared).2 ⟨skipped, behind, split, allClosing⟩
          refine .unclosed _ opening opens ?_
          rwa [behind_eq_filter clear split opens.head]
      · rintro (silent | ⟨declaration, declared', blockless⟩ | ⟨declaration, opening, opens, never⟩)
        · have here := silent (.code, line) (by
            rw [withCarry_append]
            exact List.mem_append_right _ (by simp [withCarry, clear.ends]))
          rw [declared] at here
          cases here
        · obtain rfl := Option.some.inj (found.symm.trans declared')
          exact Or.inl blockless
        · obtain rfl := Option.some.inj (found.symm.trans opens.declared)
          obtain ⟨skipped, behind, split, allClosing⟩ := (opensAt_iff clear declared).1 opens
          rw [behind_eq_filter clear split opens.head] at never
          exact Or.inr ⟨skipped, opening, behind, split, allClosing, never⟩

/-- A procedure is located exactly where its braces match.  If it is not located, then nothing is
found and nothing is replaced.  No cut is ever refused. -/
theorem locates_matching_braces (procedure : Procedure) (lines : List Text) :
    (∀ bounds, locate? procedure lines = some bounds ↔ bounds.Delimits procedure lines) ∧
      (locate? procedure lines = none ↔
        Unlocated procedure lines ∧ extract procedure lines = .empty ∧
          ∀ body, replace procedure lines body = lines) ∧
      sliceExtract? procedure lines = some (extract procedure lines) ∧
      ∀ body, sliceReplace? procedure lines body = some (replace procedure lines body) := by
  refine ⟨fun bounds => ⟨?_, Bounds.Delimits.locate?_eq⟩, ⟨?_, ?_⟩, sliceExtract?_eq procedure lines,
    sliceReplace?_eq procedure lines⟩
  · intro located
    obtain ⟨frame, holds, rfl, rfl⟩ := locate?_eq_some_iff.1 located
    exact holds.delimits
  · intro absent
    refine ⟨locate?_eq_none_iff.1 absent, ?_, fun body => ?_⟩
    · rw [extract, extract?, absent]
      rfl
    · rw [replace, absent]
  · rintro ⟨unlocated, -, -⟩
    exact locate?_eq_none_iff.2 unlocated

end MigrationSquash.Code
