import MigrationSquash.Proofs.Region.Divided

/-!
# Bodies that are written over

A body that was written into a procedure can be written over, and nothing of it stays behind.
Main statements: writing two bodies into one procedure is writing the last one, bodies of two
procedures can be written in either order, and so it makes no difference to new bodies of both
procedures what was written there before.
-/

set_option autoImplicit false

namespace MigrationSquash

namespace Text

theorem indentation_append_of_visible {s : Text} (visible : isBlankText s = false) (t : Text) :
    indentation (s ++ t) = indentation s := by
  have stops : (s.takeWhile isIndent).length ≠ s.length := by
    intro whole
    have all : s.takeWhile isIndent = s := (List.takeWhile_prefix isIndent).eq_of_length whole
    have blank : isBlankText s = true :=
      List.all_eq_true.2 fun c member =>
        isBlank_of_isIndent (List.takeWhile_eq_self_iff.1 all c member)
    rw [blank] at visible
    cases visible
  rw [indentation, indentation, List.takeWhile_append, if_neg stops]

theorem indentation_trimEnd {s : Text} (visible : isBlankText s = false) :
    indentation (trimEnd s) = indentation s := by
  obtain ⟨blanks, split, -⟩ := trimEnd_append_blanks s
  have trimmed : isBlankText (trimEnd s) = false := by
    rwa [isBlankText_trimEnd]
  have longer := indentation_append_of_visible trimmed blanks
  rw [← split] at longer
  exact longer.symm

end Text

namespace Code

variable {procedure other : Procedure}

namespace Frame

variable {frame second : Frame}

/-- Another body leaves the start of the declaring line as it is, up to blanks. -/
theorem exists_declaration_filled (holds : frame.Holds procedure) (signed : frame.Signed procedure)
    (body : Text) :
    ∃ start back newBack, frame.declaration = start ++ back ∧
      (frame.filled body).declaration = Text.trimEnd start ++ newBack ∧
      Text.isBlankText start = false := by
  cases head : frame.head with
  | cons line more =>
      have old := declaration_of_head head
      have new := declaration_filled_of_head head body
      obtain ⟨-, signs, -⟩ := declares_iff.1 holds.declares
      rw [old] at signs
      exact ⟨line, [], [], by simp [old], by simp [new], isBlankText_of_signs signs⟩
  | nil =>
      have signs := signed.resolve_left fun nonempty => nonempty head
      obtain ⟨first, old⟩ := exists_declaration_of_headless head
      have new := declaration_filled_of_headless head body
      rw [rewrittenBefore_of_signs signs, List.append_assoc] at new
      exact ⟨frame.before, _, _, old, new, isBlankText_of_signs signs⟩

theorem indentation_filled (holds : frame.Holds procedure) (signed : frame.Signed procedure)
    (body : Text) :
    Text.indentation (frame.filled body).declaration = Text.indentation frame.declaration := by
  obtain ⟨start, back, newBack, old, new, visible⟩ := exists_declaration_filled holds signed body
  have trimmed : Text.isBlankText (Text.trimEnd start) = false := by
    rwa [Text.isBlankText_trimEnd]
  rw [old, new, Text.indentation_append_of_visible visible,
    Text.indentation_append_of_visible trimmed, Text.indentation_trimEnd visible]

theorem rewrittenBefore_filled (holds : frame.Holds procedure) (signed : frame.Signed procedure)
    (body : Text) : (frame.filled body).rewrittenBefore = frame.rewrittenBefore := by
  have indent := indentation_filled holds signed body
  change (if Text.isBlankText frame.rewrittenBefore then _
    else Text.trimEnd frame.rewrittenBefore ++ [' ']) = _
  rw [indent]
  by_cases blank : Text.isBlankText frame.before = true
  · have rewritten : frame.rewrittenBefore = Text.indentation frame.declaration := if_pos blank
    have still : Text.isBlankText (Text.indentation frame.declaration) = true :=
      Text.allBlank_iff.1 (Text.allBlank_indentation _)
    rw [rewritten, if_pos still]
  · have rewritten : frame.rewrittenBefore = Text.trimEnd frame.before ++ [' '] := if_neg blank
    have space : Text.AllBlank [' '] := Text.allBlank_singleton (by decide)
    have still : ¬ Text.isBlankText (Text.trimEnd frame.before ++ [' ']) = true := by
      intro all
      apply blank
      rw [← Text.isBlankText_trimEnd]
      exact Text.allBlank_iff.1 fun c member =>
        Text.allBlank_iff.2 all c (List.mem_append_left _ member)
    rw [rewritten, if_neg still, Text.trimEnd_append_of_allBlank space, Text.trimEnd_trimEnd]

/-- The frame remembers nothing of the body that is written over. -/
theorem filled_filled (holds : frame.Holds procedure) (signed : frame.Signed procedure)
    (body newBody : Text) : (frame.filled body).filled newBody = frame.filled newBody := by
  have indent := indentation_filled holds signed body
  have before := rewrittenBefore_filled holds signed body
  have head : (frame.head.map Text.trimEnd).map Text.trimEnd = frame.head.map Text.trimEnd := by
    simp [Text.trimEnd_trimEnd]
  have bodyIndent : (frame.filled body).bodyIndent = frame.bodyIndent := by
    rw [Frame.bodyIndent, indent]
    rfl
  rw [filled, before, bodyIndent, indent]
  simp only [filled, head, Text.trimEnd_trimEnd]

end Frame

variable {frame second : Frame}

theorem replace_replace (holds : frame.Holds procedure) (signed : frame.Signed procedure)
    {body : Text} (closed : Closed body) (newBody : Text) :
    replace procedure (replace procedure frame.lines body) newBody =
      replace procedure frame.lines newBody := by
  rw [replace_lines holds, replace_lines (holds.filled signed closed),
    Frame.filled_filled holds signed, replace_lines holds]

theorem replace_comm_of_precedes (holds : frame.Holds procedure) (otherHolds : second.Holds other)
    (same : frame.lines = second.lines) (precedes : frame.bounds.Precedes second.bounds)
    {body : Text} (filled : (frame.filled body).Holds procedure)
    (silent : ∀ pair ∈ withCarry .code (frame.filled body).region, declares other pair = false)
    (otherBody : Text) :
    replace other (replace procedure frame.lines body) otherBody =
      replace procedure (replace other frame.lines otherBody) body := by
  obtain ⟨between, above, below⟩ := Frame.Precedes.exists_between precedes same
  have clear := otherHolds.clear
  rw [above] at clear
  have moved := otherHolds.withAbove (Frame.clear_swap holds.clear.runLines
    (Frame.runLines_region_filled holds filled) silent clear)
  have behind := holds.withBelow (between ++ ((second.filled otherBody).region ++ second.below))
  have first : (frame.filled body).lines = Frame.lines
      { second with above := frame.above ++ ((frame.filled body).region ++ between) } := by
    rw [Frame.lines, Frame.lines, Frame.filled, below]
    simp [Frame.region]
  have last : (second.filled otherBody).lines = Frame.lines
      { frame with below := between ++ ((second.filled otherBody).region ++ second.below) } := by
    rw [Frame.lines, Frame.lines, Frame.filled, above]
    simp [Frame.region]
  rw [replace_lines holds, first, replace_lines moved, same, replace_lines otherHolds, last,
    replace_lines behind]
  change (frame.above ++ ((frame.filled body).region ++ between)) ++
      ((second.filled otherBody).region ++ second.below) =
    frame.above ++ ((frame.filled body).region ++
      (between ++ ((second.filled otherBody).region ++ second.below)))
  simp

/-- Bodies of procedures that are apart can be written in either order, if what is written above a
procedure does not declare it. -/
theorem replace_comm (holds : frame.Holds procedure) (otherHolds : second.Holds other)
    (same : frame.lines = second.lines) (apart : frame.bounds.Apart second.bounds)
    (body otherBody : Text) (filled : (frame.filled body).Holds procedure)
    (otherFilled : (second.filled otherBody).Holds other)
    (silent : frame.bounds.Precedes second.bounds →
      ∀ pair ∈ withCarry .code (frame.filled body).region, declares other pair = false)
    (otherSilent : second.bounds.Precedes frame.bounds →
      ∀ pair ∈ withCarry .code (second.filled otherBody).region,
        declares procedure pair = false) :
    replace other (replace procedure frame.lines body) otherBody =
      replace procedure (replace other frame.lines otherBody) body := by
  rcases apart with first | later
  · exact replace_comm_of_precedes holds otherHolds same first filled (silent first) otherBody
  · rw [same]
    exact (replace_comm_of_precedes otherHolds holds same.symm later otherFilled
      (otherSilent later) body).symm

/-- What was written into both procedures before makes no difference to new bodies. -/
theorem Divided.replace_again {lines : List Text} (divided : Divided lines)
    (located : ∀ procedure : Procedure, (locate? procedure lines).isSome = true)
    (old new : Procedure → Text) (closed : ∀ procedure, Closed (old procedure))
    (silent : ∀ procedure other : Procedure, procedure ≠ other → Silent other (old procedure))
    (newClosed : ∀ procedure, Closed (new procedure))
    (newSilent : ∀ procedure other : Procedure, procedure ≠ other →
      Silent other (new procedure)) :
    replace .down (replace .up (replace .down (replace .up lines (old .up)) (old .down))
        (new .up)) (new .down) =
      replace .down (replace .up lines (new .up)) (new .down) := by
  obtain ⟨upBounds, upLocated⟩ := Option.isSome_iff_exists.1 (located .up)
  obtain ⟨downBounds, downLocated⟩ := Option.isSome_iff_exists.1 (located .down)
  have apart := divided.apart upBounds downBounds upLocated downLocated
  obtain ⟨up, upFits, rfl, rfl⟩ := divided.exists_frame .down (by decide) upLocated
  obtain ⟨down, downFits, same, rfl⟩ := divided.exists_frame .up (by decide) downLocated
  have upFilled {body : Text} (closed : Closed body) : (up.filled body).Holds .up :=
    upFits.holds.filled upFits.signed closed
  have moved {body : Text} (closed : Closed body) (silent : Silent .down body) :=
    upFits.holds.exists_filled downFits.holds same.symm apart upFits.unsigned (upFilled closed)
      silent
  have upAgain := Frame.filled_filled upFits.holds upFits.signed (old .up) (new .up)
  -- the new body of Up passes the old one of Down and writes over the old one of Up
  have passed : replace .up (replace .down (up.filled (old .up)).lines (old .down)) (new .up) =
      replace .down (up.filled (new .up)).lines (old .down) := by
    obtain ⟨above, below, holds, split, stillApart⟩ :=
      moved (closed .up) (silent .up .down (by decide))
    have swapped := replace_comm (upFilled (closed .up)) holds split stillApart (new .up)
      (old .down) (by rw [upAgain]; exact upFilled (newClosed .up))
      (holds.filled downFits.signed (closed .down))
      (fun _ => clear_of_silent .code (by
        rw [upAgain]
        exact upFits.unsigned.filled (newSilent .up .down (by decide))))
      (fun _ => clear_of_silent .code
        (Frame.Unsigned.filled downFits.unsigned (silent .down .up (by decide))))
    rw [← swapped, replace_lines (upFilled (closed .up)), upAgain]
  obtain ⟨above, below, holds, split, -⟩ :=
    moved (newClosed .up) (newSilent .up .down (by decide))
  rw [replace_lines upFits.holds, replace_lines upFits.holds, passed, split,
    replace_replace holds downFits.signed (closed .down)]

end Code

end MigrationSquash
