import MigrationSquash.Proofs.Region.Fills

/-!
# Procedures that can be told apart

When the two procedures of a file can be told apart: each is declared before its brace, away
from the other one, and no line of either matches the signature of the other.  Main
statement: new bodies that are closed and silent about each other are found in the procedures
that such a file held, and in no other ones.
-/

set_option autoImplicit false

namespace MigrationSquash

open Text (Unbroken)

namespace Code

variable {procedure other : Procedure}

/-- The match of the signature ends before the opening brace. -/
def Bounds.SignedBefore (procedure : Procedure) (lines : List Text) (bounds : Bounds) : Prop :=
  bounds.declaration < bounds.opening.line ∨
    ∃ start stop, procedure.signature? (lineAt lines bounds.declaration) = some (start, stop) ∧
      stop ≤ bounds.opening.offset

/-- The lines of a procedure from its declaration to its closing brace. -/
def regionLines (procedure : Procedure) (lines : List Text) : List Text :=
  match locate? procedure lines with
  | some bounds => (lines.take (bounds.closing.line + 1)).drop bounds.declaration
  | none => []

namespace Frame

variable {frame : Frame}

theorem regionLines_lines (holds : frame.Holds procedure) :
    regionLines procedure frame.lines = frame.region := by
  have located := holds.locate?_eq
  have stop : frame.bounds.closing.line + 1 = (frame.above ++ frame.region).length := by
    simp only [bounds, closing, opening, List.length_append, length_region]
    omega
  rw [regionLines, located]
  change (frame.lines.take (frame.bounds.closing.line + 1)).drop frame.bounds.declaration = _
  rw [stop, lines, ← List.append_assoc, List.take_left, bounds,
    List.drop_left]

theorem signed_of_signedBefore (before : frame.bounds.SignedBefore procedure frame.lines) :
    frame.Signed procedure := by
  rcases before with above | ⟨start, stop, found, fits⟩
  · left
    rintro empty
    simp [bounds, opening, empty] at above
  · by_cases empty : frame.head = []
    case neg => exact Or.inl empty
    right
    obtain ⟨first, line⟩ := exists_declaration_of_headless empty
    rw [lineAt_declaration, line] at found
    obtain ⟨front, signature, back, split, boundary, isSignature, -, stops⟩ :=
      Procedure.signatureFrom?_spec found
    change stop ≤ Text.width frame.before at fits
    have starts : Procedure.EndsWord front := fun c last => boundary c (by simp [last])
    rw [← List.append_assoc] at split
    rcases List.append_eq_append_iff.1 split.symm with ⟨more, shorter, -⟩ | ⟨more, longer, -⟩
    · exact ⟨front, signature, more, by rw [shorter, List.append_assoc], starts, isSignature⟩
    · have empty : more = [] := by
        cases more with
        | nil => rfl
        | cons c others =>
            have positive := c.utf8Size_pos
            rw [longer, Text.width_append, Text.width_cons] at stops
            omega
      rw [empty, List.append_nil] at longer
      exact ⟨front, signature, [], by rw [← longer, List.append_nil], starts, isSignature⟩

end Frame

theorem closed_extract {lines : List Text} (unbroken : ∀ line ∈ lines, Unbroken line) :
    Closed (extract procedure lines).text := by
  cases located : locate? procedure lines with
  | none =>
      rw [extract, extract?, located]
      exact .nil
  | some bounds =>
      obtain ⟨frame, holds, rfl, -⟩ := locate?_eq_some_iff.1 located
      rw [extract_lines holds]
      exact (holds.closed unbroken).trim

/-- A body does not declare the other procedure unless a line of its procedure is signed. -/
theorem silent_extract {lines : List Text} (unbroken : ∀ line ∈ lines, Unbroken line)
    (unsigned : ∀ line ∈ regionLines procedure lines, other.isDeclaredIn line = false) :
    Silent other (extract procedure lines).text := by
  cases located : locate? procedure lines with
  | none =>
      rw [extract, extract?, located]
      exact .nil
  | some bounds =>
      obtain ⟨frame, holds, rfl, -⟩ := locate?_eq_some_iff.1 located
      rw [extract_lines holds]
      rw [Frame.regionLines_lines holds] at unsigned
      have unsignedFrame : frame.Unsigned other := by
        intro line member signs
        rw [← Procedure.isDeclaredIn_iff, unsigned line member] at signs
        cases signs
      exact (unsignedFrame.silent unbroken).trim

/-- Lines whose procedures can be told apart: each is declared before its brace and away from
the other one, whose signature none of its lines matches. -/
structure Divided (lines : List Text) : Prop where
  before : ∀ (procedure : Procedure) (bounds : Bounds), locate? procedure lines = some bounds →
    bounds.SignedBefore procedure lines
  apart : ∀ up down : Bounds, locate? .up lines = some up → locate? .down lines = some down →
    up.Apart down
  unsigned : ∀ procedure other : Procedure, procedure ≠ other →
    ∀ line ∈ regionLines procedure lines, other.isDeclaredIn line = false

namespace Divided

variable {lines : List Text} (divided : Divided lines)
include divided

theorem exists_frame (other : Procedure) (differ : procedure ≠ other) {bounds : Bounds}
    (located : locate? procedure lines = some bounds) :
    ∃ frame : Frame, frame.Fits procedure other ∧ frame.lines = lines ∧ bounds = frame.bounds := by
  have before := divided.before procedure bounds located
  obtain ⟨frame, holds, same, rfl⟩ := Code.exists_of_locate? located
  have unsigned := divided.unsigned procedure other differ
  rw [same] at before unsigned
  rw [Frame.regionLines_lines holds] at unsigned
  refine ⟨frame, ⟨holds, Frame.signed_of_signedBefore before, ?_⟩, same.symm, rfl⟩
  intro line member signs
  rw [← Procedure.isDeclaredIn_iff, unsigned line member] at signs
  cases signs

/-- New bodies stand in the procedures that the lines held. -/
theorem fills (body : Procedure → Text) (closed : ∀ procedure, Closed (body procedure))
    (silent : ∀ procedure other : Procedure, procedure ≠ other → Silent other (body procedure)) :
    Fills lines (replace .down (replace .up lines (body .up)) (body .down)) body := by
  have upSilent : Silent .down (body .up) := silent .up .down (by decide)
  have downSilent : Silent .up (body .down) := silent .down .up (by decide)
  have kept {procedure : Procedure} {lines : List Text}
      (absent : locate? procedure lines = none) :
      replace procedure lines (body procedure) = lines := by
    rw [replace, absent]
  cases upLocated : locate? .up lines with
  | none =>
      rw [kept upLocated]
      cases downLocated : locate? .down lines with
      | none =>
          rw [kept downLocated]
          exact .of_none body fun procedure => by cases procedure <;> assumption
      | some bounds =>
          obtain ⟨down, fits, same, -⟩ :=
            divided.exists_frame .up (by decide) downLocated
          rw [← same] at upLocated ⊢
          exact .of_one body (by decide) fits upLocated (closed .down) downSilent
  | some bounds =>
      obtain ⟨up, upFits, upLines, rfl⟩ :=
        divided.exists_frame .down (by decide) upLocated
      cases downLocated : locate? .down lines with
      | none =>
          rw [← upLines] at downLocated ⊢
          have one : Fills up.lines (replace .up up.lines (body .up)) body :=
            .of_one body (by decide) upFits downLocated (closed .up) upSilent
          rw [kept (one.absent .down downLocated)]
          exact one
      | some bounds =>
          obtain ⟨down, downFits, downLines, rfl⟩ :=
            divided.exists_frame .up (by decide) downLocated
          rw [← upLines]
          exact .of_both body (by decide) upFits downFits (upLines.trans downLines.symm)
            (divided.apart _ _ upLocated downLocated) closed upSilent downSilent

end Divided

end Code

end MigrationSquash
