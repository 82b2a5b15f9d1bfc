import MigrationSquash.Proofs.Region.Absent

/-!
# Bodies for the procedures of a file

A file holds both procedures, one of them or none.  In each case new bodies are found in the
procedures that the file held, and a procedure that it did not hold is still not there.
-/

set_option autoImplicit false

namespace MigrationSquash

theorem Procedure.eq_or_eq {procedure other : Procedure} (differ : procedure ≠ other)
    (third : Procedure) : third = procedure ∨ third = other := by
  cases procedure <;> cases other <;> cases third <;> simp at differ ⊢

namespace Code

/-- How far the body of a procedure is moved in. -/
def bodyIndent (bounds : Bounds) (lines : List Text) : Text :=
  Text.indentation (lineAt lines bounds.declaration) ++ Text.indentStep

theorem allBlank_bodyIndent (bounds : Bounds) (lines : List Text) :
    Text.AllBlank (bodyIndent bounds lines) :=
  (Text.allBlank_indentation _).append Text.allBlank_indentStep

/-- The bodies stand in the procedures that the lines held, the other procedures are still not
there, and no more braces are opened than before. -/
structure Fills (lines filled : List Text) (body : Procedure → Text) : Prop where
  text : ∀ (procedure : Procedure) (bounds : Bounds), locate? procedure lines = some bounds →
    (extract procedure filled).text =
      Text.trim (Text.joinLines (indentBlock (body procedure) (bodyIndent bounds lines)))
  present : ∀ (procedure : Procedure) (bounds : Bounds), locate? procedure lines = some bounds →
    (locate? procedure filled).isSome = true
  absent : ∀ procedure : Procedure, locate? procedure lines = none →
    locate? procedure filled = none
  delta : totalDelta filled = totalDelta lines

/-- A frame of a procedure that can be told apart from the other one. -/
structure Frame.Fits (procedure other : Procedure) (frame : Frame) : Prop where
  holds : frame.Holds procedure
  signed : frame.Signed procedure
  unsigned : frame.Unsigned other

variable {procedure other : Procedure} {lines : List Text} {frame second : Frame}

namespace Fills

variable (body : Procedure → Text)

theorem of_none (absent : ∀ procedure : Procedure, locate? procedure lines = none) :
    Fills lines lines body where
  text procedure bounds located := by
    rw [absent procedure] at located
    cases located
  present procedure bounds located := by
    rw [absent procedure] at located
    cases located
  absent procedure _ := absent procedure
  delta := rfl

theorem of_one (differ : procedure ≠ other) (fits : frame.Fits procedure other)
    (absent : locate? other frame.lines = none) (closed : Closed (body procedure))
    (silent : Silent other (body procedure)) :
    Fills frame.lines (replace procedure frame.lines (body procedure)) body := by
  have located := fits.holds.locate?_eq
  obtain ⟨text, present, stillAbsent, delta⟩ :=
    extract_replace_one fits.holds absent fits.signed fits.unsigned closed silent
  refine ⟨?_, ?_, ?_, delta⟩
  · intro third bounds found
    rcases Procedure.eq_or_eq differ third with rfl | rfl
    · obtain rfl := Option.some.inj (located.symm.trans found)
      rw [bodyIndent, frame.lineAt_declaration]
      exact text
    · rw [absent] at found
      cases found
  · intro third bounds found
    rcases Procedure.eq_or_eq differ third with rfl | rfl
    · exact present
    · rw [absent] at found
      cases found
  · intro third missing
    rcases Procedure.eq_or_eq differ third with rfl | rfl
    · rw [located] at missing
      cases missing
    · exact stillAbsent

theorem of_both (differ : procedure ≠ other) (fits : frame.Fits procedure other)
    (otherFits : second.Fits other procedure) (same : frame.lines = second.lines)
    (apart : frame.bounds.Apart second.bounds)
    (closed : ∀ third, Closed (body third)) (silent : Silent other (body procedure))
    (otherSilent : Silent procedure (body other)) :
    Fills frame.lines
      (replace other (replace procedure frame.lines (body procedure)) (body other)) body := by
  have located := fits.holds.locate?_eq
  have otherLocated := otherFits.holds.locate?_eq
  rw [← same] at otherLocated
  obtain ⟨text, otherText, present, otherPresent, delta⟩ := extract_replace_both fits.holds
    otherFits.holds same apart fits.signed otherFits.signed fits.unsigned otherFits.unsigned
    (closed procedure) (closed other) silent otherSilent
  have indent : bodyIndent second.bounds frame.lines = second.bodyIndent := by
    rw [bodyIndent, same, second.lineAt_declaration]
    rfl
  refine ⟨?_, ?_, ?_, delta⟩
  · intro third bounds found
    rcases Procedure.eq_or_eq differ third with rfl | rfl
    · obtain rfl := Option.some.inj (located.symm.trans found)
      rw [bodyIndent, frame.lineAt_declaration]
      exact text
    · obtain rfl := Option.some.inj (otherLocated.symm.trans found)
      rw [indent]
      exact otherText
  · intro third bounds found
    rcases Procedure.eq_or_eq differ third with rfl | rfl
    · exact present
    · exact otherPresent
  · intro third missing
    rcases Procedure.eq_or_eq differ third with rfl | rfl
    · rw [located] at missing
      cases missing
    · rw [otherLocated] at missing
      cases missing

end Fills

end Code

end MigrationSquash
