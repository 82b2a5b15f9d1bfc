import MigrationSquash.Proofs.Scan.Depth
import MigrationSquash.Proofs.Region.Signature

/-!
# The frame of a procedure

A file in which a procedure is located falls into the lines above its declaration, the head
of the procedure, the text between its braces and the lines below.  Main statement: the
bounds of a procedure are those of a frame that fulfils `Holds`, and a frame that fulfils it
has the bounds that are found.  The condition never looks at the lines below.
-/

set_option autoImplicit false

namespace MigrationSquash.Code

open Mode (spots kindsOfLines runLines)

variable {procedure : Procedure}

/-- Lines from code to code none of which declares the procedure. -/
structure Clear (procedure : Procedure) (carry : Carry) (above : List Text) : Prop where
  silent : ∀ pair ∈ withCarry carry above, declares procedure pair = false
  ends : (carry.mode.runLines above).carry = .code

theorem Clear.nil : Clear procedure .code [] :=
  ⟨by simp [withCarry], rfl⟩

theorem Clear.runLines {carry : Carry} {above : List Text} (clear : Clear procedure carry above) :
    carry.mode.runLines above = .code := by
  rw [← Mode.mode_carry_runLines, clear.ends]
  rfl

theorem clear_append_iff {above below : List Text} {carry : Carry} :
    Clear procedure carry (above ++ below) ↔
      (∀ pair ∈ withCarry carry above, declares procedure pair = false) ∧
        Clear procedure (carry.mode.runLines above).carry below := by
  constructor
  · intro clear
    have silent := clear.silent
    have ends := clear.ends
    rw [withCarry_append] at silent
    rw [Mode.runLines_append] at ends
    refine ⟨fun pair member => silent pair (List.mem_append_left _ member),
      fun pair member => silent pair (List.mem_append_right _ member), ?_⟩
    rwa [Mode.mode_carry_runLines]
  · rintro ⟨silent, clear⟩
    have ends := clear.ends
    rw [Mode.mode_carry_runLines] at ends
    refine ⟨?_, by rwa [Mode.runLines_append]⟩
    intro pair member
    rw [withCarry_append] at member
    exact (List.mem_append.1 member).elim (silent pair) (clear.silent pair)

theorem clear_nil_iff {carry : Carry} : Clear procedure carry [] ↔ carry = .code := by
  constructor
  · intro clear
    simpa using clear.ends
  · rintro rfl
    exact .nil

theorem clear_cons_iff {line : Text} {above : List Text} {carry : Carry} :
    Clear procedure carry (line :: above) ↔ declares procedure (carry, line) = false ∧
      Clear procedure (carry.mode.run line).carry above := by
  have pairs : withCarry carry (line :: above) =
      (carry, line) :: withCarry (carry.mode.run line).carry above := by
    rw [withCarry, scanLine_eq_scan]
    rfl
  constructor
  · intro clear
    have silent := clear.silent
    rw [pairs] at silent
    obtain ⟨here, later⟩ := List.forall_mem_cons.1 silent
    exact ⟨here, later, clear.ends⟩
  · rintro ⟨here, clear⟩
    refine ⟨?_, clear.ends⟩
    rw [pairs]
    exact List.forall_mem_cons.2 ⟨here, clear.silent⟩

/-- The first line that declares stands below lines that do not. -/
theorem findIdx?_withCarry_eq_some_iff {carry : Carry} {lines : List Text} {number : Nat} :
    (withCarry carry lines).findIdx? (declares procedure) = some number ↔
      ∃ above line rest, lines = above ++ line :: rest ∧ number = above.length ∧
        Clear procedure carry above ∧ declares procedure (.code, line) = true := by
  induction lines generalizing carry number with
  | nil => simp [withCarry]
  | cons line rest ih =>
      rw [withCarry, List.findIdx?_cons]
      cases here : declares procedure (carry, line) with
      | true =>
          obtain ⟨rfl, -, -⟩ := declares_iff.1 here
          constructor
          · intro same
            obtain rfl := Option.some.inj same
            exact ⟨[], line, rest, rfl, rfl, .nil, here⟩
          · rintro ⟨above, other, others, split, rfl, clear, -⟩
            cases above with
            | nil => rfl
            | cons first above =>
                obtain ⟨rfl, -⟩ := List.cons.inj split
                rw [(clear_cons_iff.1 clear).1] at here
                cases here
      | false =>
          simp only [Bool.false_eq_true, if_false, Option.map_eq_some_iff, ih, scanLine_eq_scan]
          constructor
          · rintro ⟨distance, ⟨above, other, others, rfl, rfl, clear, declared⟩, rfl⟩
            exact ⟨line :: above, other, others, rfl, rfl, clear_cons_iff.2 ⟨here, clear⟩, declared⟩
          · rintro ⟨above, other, others, split, rfl, clear, declared⟩
            cases above with
            | nil =>
                obtain ⟨rfl, rfl⟩ := List.cons.inj split
                rw [clear_nil_iff.1 clear, declared] at here
                cases here
            | cons first above =>
                obtain ⟨rfl, rfl⟩ := List.cons.inj split
                exact ⟨above.length,
                  ⟨above, other, others, rfl, rfl, (clear_cons_iff.1 clear).2, declared⟩, rfl⟩

theorem findDeclaration?_eq_some_iff {lines : List Text} {number : Nat} :
    findDeclaration? procedure lines = some number ↔
      ∃ above line rest, lines = above ++ line :: rest ∧ number = above.length ∧
        Clear procedure .code above ∧ declares procedure (.code, line) = true :=
  findIdx?_withCarry_eq_some_iff

/-- The lines of a block with what stands before its opening brace and after its closing
one; `last` is the text before the closing brace on its line, and `inner` is the text between
the braces on the lines before. -/
def enclose (before : Text) (inner : List Text) (last after : Text) : List Text :=
  match inner with
  | [] => [before ++ '{' :: (last ++ '}' :: after)]
  | first :: more => (before ++ '{' :: first) :: (more ++ [last ++ '}' :: after])

@[simp] theorem length_enclose (before : Text) (inner : List Text) (last after : Text) :
    (enclose before inner last after).length = inner.length + 1 := by
  cases inner <;> simp [enclose]

theorem enclose_append {before last after first : Text} {inner below rest : List Text}
    (split : first :: rest = inner ++ (last ++ '}' :: after) :: below) :
    enclose before inner last after ++ below = (before ++ '{' :: first) :: rest := by
  cases inner with
  | nil =>
      obtain ⟨rfl, rfl⟩ := List.cons.inj split
      rfl
  | cons line more =>
      obtain ⟨rfl, rfl⟩ := List.cons.inj split
      simp [enclose]

theorem exists_eq_enclose_append (before : Text) (inner : List Text) (last after : Text)
    (below : List Text) :
    ∃ first rest, first :: rest = inner ++ (last ++ '}' :: after) :: below ∧
      enclose before inner last after ++ below = (before ++ '{' :: first) :: rest := by
  cases inner with
  | nil => exact ⟨_, _, rfl, enclose_append rfl⟩
  | cons line more => exact ⟨_, _, rfl, enclose_append rfl⟩

/-- A file around a block: the lines above the head, the head up to the opening brace, the
text between the braces, the rest of the line of the closing brace and the lines below. -/
structure Frame where
  above : List Text
  head : List Text
  before : Text
  inner : List Text
  last : Text
  after : Text
  below : List Text
  deriving DecidableEq, Repr

namespace Frame

/-- The lines from the head to the closing brace. -/
def region (frame : Frame) : List Text :=
  frame.head ++ enclose frame.before frame.inner frame.last frame.after

def lines (frame : Frame) : List Text := frame.above ++ (frame.region ++ frame.below)

def opening (frame : Frame) : Spot :=
  ⟨frame.above.length + frame.head.length, Text.width frame.before⟩

def closing (frame : Frame) : Spot :=
  ⟨frame.opening.line + frame.inner.length,
    (if frame.inner = [] then frame.opening.offset + 1 else 0) + Text.width frame.last⟩

def bounds (frame : Frame) : Bounds := ⟨frame.above.length, frame.opening, frame.closing⟩

/-- The lines of the text between the braces. -/
def pieces (frame : Frame) : List Text := frame.inner ++ [frame.last]

@[simp] theorem length_region (frame : Frame) :
    frame.region.length = frame.head.length + (frame.inner.length + 1) := by
  simp [region]

theorem region_ne_nil (frame : Frame) : frame.region ≠ [] := by
  intro empty
  have long := frame.length_region
  rw [empty] at long
  simp at long

/-- The first line of the procedure: the line that declares it. -/
def declaration (frame : Frame) : Text := frame.region.headD []

theorem region_eq_cons (frame : Frame) : ∃ rest, frame.region = frame.declaration :: rest := by
  unfold declaration
  cases split : frame.region with
  | nil => exact absurd split frame.region_ne_nil
  | cons first rest => exact ⟨rest, rfl⟩

theorem declaration_of_head {frame : Frame} {line : Text} {more : List Text}
    (head : frame.head = line :: more) : frame.declaration = line := by
  simp [declaration, region, head]

/-- A frame without a head is declared on the line of its opening brace. -/
theorem exists_declaration_of_headless {frame : Frame} (head : frame.head = []) :
    ∃ first, frame.declaration = frame.before ++ '{' :: first := by
  obtain ⟨first, rest, -, whole⟩ :=
    exists_eq_enclose_append frame.before frame.inner frame.last frame.after []
  rw [List.append_nil] at whole
  exact ⟨first, by simp [declaration, region, head, whole]⟩

/-- What makes the block of a frame the body of the procedure. -/
structure Holds (procedure : Procedure) (frame : Frame) : Prop where
  clear : Clear procedure .code frame.above
  declares : declares procedure (.code, frame.declaration) = true
  noBlock : ∀ kind ∈ Mode.code.kindsOfLines (frame.head ++ [frame.before]), kind = .closing
  opens : ((Mode.code.runLines frame.head).run frame.before).isCode = true
  balanced : Balanced (Mode.code.kindsOfLines frame.pieces)
  closes : ((Mode.code.runLines frame.inner).run frame.last).isCode = true

theorem lines_eq_append_brace (frame : Frame) :
    ∃ first rest, first :: rest = frame.inner ++ (frame.last ++ '}' :: frame.after) :: frame.below ∧
      frame.lines = frame.above ++ (frame.head ++ (frame.before ++ '{' :: first) :: rest) := by
  obtain ⟨first, rest, split, whole⟩ :=
    exists_eq_enclose_append frame.before frame.inner frame.last frame.after frame.below
  refine ⟨first, rest, split, ?_⟩
  rw [lines, region, List.append_assoc, whole]

/-- The places of the braces from the declaration on. -/
theorem spots_lines (frame : Frame) (holds : frame.Holds procedure) :
    Mode.code.spots frame.above.length 0 (frame.region ++ frame.below) =
      Mode.code.spots frame.above.length 0 (frame.head ++ [frame.before]) ++
        (frame.opening, .opening) ::
          (Mode.code.spots frame.opening.line (frame.opening.offset + 1) frame.pieces ++
            (frame.closing, .closing) ::
              Mode.code.spots frame.closing.line (frame.closing.offset + 1)
                (frame.after :: frame.below)) := by
  obtain ⟨first, rest, split, whole⟩ :=
    exists_eq_enclose_append frame.before frame.inner frame.last frame.after frame.below
  have outer := Mode.spots_append_brace frame.above.length 0 .opening first rest holds.opens
  have nested := Mode.spots_append_brace frame.opening.line (frame.opening.offset + 1) .closing
    frame.after frame.below holds.closes
  simp only [ite_self, Nat.zero_add] at outer
  rw [region, List.append_assoc, whole]
  refine outer.trans ?_
  rw [split]
  exact congrArg (_ ++ (frame.opening, BraceKind.opening) :: ·) nested

end Frame

theorem Frame.Holds.locate?_eq {frame : Frame} (holds : frame.Holds procedure) :
    locate? procedure frame.lines = some frame.bounds := by
  obtain ⟨rest, start⟩ := frame.region_eq_cons
  have declared : findDeclaration? procedure frame.lines = some frame.above.length :=
    findDeclaration?_eq_some_iff.2 ⟨frame.above, frame.declaration, rest ++ frame.below,
      by rw [Frame.lines, start]; rfl, rfl, holds.clear, holds.declares⟩
  have found : firstBlock? (bracesFrom .code frame.above.length
      (frame.lines.drop frame.above.length)) = some (frame.opening, frame.closing) := by
    rw [Frame.lines, List.drop_left, bracesFrom_eq_spots]
    refine firstBlock?_eq_some_iff.2 ⟨_, _, _, frame.spots_lines holds, ?_, ?_⟩
    · rw [Mode.map_snd_spots]
      exact holds.noBlock
    · rw [Mode.map_snd_spots]
      exact holds.balanced
  simp [locate?, declared, found, Frame.bounds]

open Frame in
/-- A frame stands around two of the braces from the declaration on, the first of which opens a
block.  It holds if what is between them is balanced. -/
theorem exists_frame_of_spots {above : List Text} {line : Text} {rest : List Text}
    {skipped inner others : List (Spot × BraceKind)} {opening closing : Spot}
    (clear : Clear procedure .code above) (declared : declares procedure (.code, line) = true)
    (split : Mode.code.spots above.length 0 (line :: rest) =
      skipped ++ (opening, .opening) :: (inner ++ (closing, .closing) :: others))
    (noBlock : ∀ kind ∈ skipped.map (·.2), kind = .closing) :
    ∃ frame : Frame, above ++ line :: rest = frame.lines ∧
      ⟨above.length, opening, closing⟩ = frame.bounds ∧
      (Balanced (Mode.code.kindsOfLines frame.pieces) ↔ Balanced (inner.map (·.2))) ∧
      (Balanced (Mode.code.kindsOfLines frame.pieces) → frame.Holds procedure) := by
  obtain ⟨head, before, first, later, cut, opens, onLine, place, lefts, rights⟩ :=
    Mode.exists_of_spots_eq_append split
  obtain ⟨middle, last, after, below, cut', closes, onLine', place', lefts', -⟩ :=
    Mode.exists_of_spots_eq_append rights.symm
  have whole : enclose before middle last after ++ below = (before ++ '{' :: first) :: later :=
    enclose_append cut'
  have region : line :: rest = head ++ enclose before middle last after ++ below := by
    rw [List.append_assoc, whole]
    exact cut
  refine ⟨⟨above, head, before, middle, last, after, below⟩, ?_, ?_, ?_,
    fun balanced => ⟨clear, ?_, ?_, opens, balanced, closes⟩⟩
  · rw [region]
    simp [Frame.lines, Frame.region]
  · obtain ⟨openingLine, openingOffset⟩ := opening
    obtain ⟨closingLine, closingOffset⟩ := closing
    simp only [ite_self, Nat.zero_add] at onLine place onLine' place'
    simp only [Frame.bounds, Frame.opening, Frame.closing, onLine, place, onLine', place']
  · rw [lefts', Mode.map_snd_spots]
    rfl
  · have first : Frame.declaration ⟨above, head, before, middle, last, after, below⟩ = line := by
      obtain ⟨more, start⟩ := region_eq_cons ⟨above, head, before, middle, last, after, below⟩
      rw [Frame.region] at start
      rw [start] at region
      exact (List.cons.inj region).1.symm
    rw [first]
    exact declared
  · rwa [lefts, Mode.map_snd_spots] at noBlock

theorem exists_of_locate? {lines : List Text} {bounds : Bounds}
    (located : locate? procedure lines = some bounds) :
    ∃ frame : Frame, frame.Holds procedure ∧ lines = frame.lines ∧ bounds = frame.bounds := by
  simp only [locate?, Option.bind_eq_bind, Option.bind_eq_some_iff] at located
  obtain ⟨number, declared, ⟨opening, closing⟩, found, same⟩ := located
  obtain rfl := (Option.some.inj same).symm
  obtain ⟨above, line, rest, rfl, rfl, clear, declares⟩ :=
    findDeclaration?_eq_some_iff.1 declared
  rw [List.drop_left, bracesFrom_eq_spots] at found
  obtain ⟨skipped, inner, others, split, noBlock, balanced⟩ := firstBlock?_eq_some_iff.1 found
  obtain ⟨frame, lines, bounds, level, holds⟩ :=
    exists_frame_of_spots clear declares split noBlock
  exact ⟨frame, holds (level.2 balanced), lines, bounds⟩

/-- A procedure is located exactly where a frame holds. -/
theorem locate?_eq_some_iff {lines : List Text} {bounds : Bounds} :
    locate? procedure lines = some bounds ↔
      ∃ frame : Frame, frame.Holds procedure ∧ lines = frame.lines ∧ bounds = frame.bounds := by
  refine ⟨exists_of_locate?, ?_⟩
  rintro ⟨frame, holds, rfl, rfl⟩
  exact holds.locate?_eq

end MigrationSquash.Code
