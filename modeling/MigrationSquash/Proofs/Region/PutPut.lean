import MigrationSquash.Proofs.Region.Overwritten
import MigrationSquash.Proofs.Region.PutGet

/-!
# The last body that is written

Main statement: where the signature ends before the opening brace, a closed body leaves no trace
once another body is written over it, whatever that body is, and so do any number of closed bodies
that are written one after the other.
-/

set_option autoImplicit false

namespace MigrationSquash.Code

variable {procedure : Procedure}

theorem signs_trimEnd {line : Text} (signs : procedure.Signs line) :
    procedure.Signs (Text.trimEnd line) := by
  obtain ⟨blanks, split, allBlank⟩ := Text.trimEnd_append_blanks line
  rw [split] at signs
  exact signs.of_append_right (not_mem_of_allBlank allBlank (by decide))

/-- Another body leaves the declaration before the opening brace. -/
theorem Frame.Signed.filled {frame : Frame} (signed : frame.Signed procedure) (body : Text) :
    (frame.filled body).Signed procedure := by
  rcases signed with nonempty | signs
  · exact Or.inl fun empty => nonempty (List.map_eq_nil_iff.1 empty)
  · right
    change procedure.Signs frame.rewrittenBefore
    rw [Frame.rewrittenBefore_of_signs signs]
    exact (signs_trimEnd signs).append_right [' ']

/-- After closed bodies were written one after the other, a new body makes of the lines what it
makes of them without those bodies. -/
theorem replace_foldl {frame : Frame} (holds : frame.Holds procedure)
    (signed : frame.Signed procedure) {earlier : List Text}
    (closed : ∀ body ∈ earlier, Closed body) (newBody : Text) :
    replace procedure (earlier.foldl (replace procedure) frame.lines) newBody =
      replace procedure frame.lines newBody := by
  induction earlier generalizing frame with
  | nil => rfl
  | cons body rest ih =>
      have bodyClosed := closed body List.mem_cons_self
      have later := ih (holds.filled signed bodyClosed) (signed.filled body) fun other member =>
        closed other (List.mem_cons_of_mem body member)
      rw [List.foldl_cons, replace_lines holds, later, ← replace_lines holds body]
      exact replace_replace holds signed bodyClosed newBody

/-- Nothing of a closed body is left in the lines when a procedure gets a new one. -/
theorem replace_over_closed {lines : List Text} {bounds : Bounds} {body : Text}
    (located : locate? procedure lines = some bounds)
    (before : bounds.SignedBefore procedure lines) (closed : ClosedLines (Text.lines body)) :
    (∀ newBody, replace procedure (replace procedure lines body) newBody =
        replace procedure lines newBody) ∧
      replace procedure (replace procedure lines body) body = replace procedure lines body ∧
      ∀ earlier : List Text, (∀ old ∈ earlier, ClosedLines (Text.lines old)) → ∀ newBody,
        replace procedure (earlier.foldl (replace procedure) lines) newBody =
          replace procedure lines newBody := by
  obtain ⟨frame, holds, rfl, rfl⟩ := locate?_eq_some_iff.1 located
  have signed := Frame.signed_of_signedBefore before
  have overwritten (newBody : Text) := replace_replace holds signed (closed_iff.2 closed) newBody
  refine ⟨overwritten, overwritten body, fun earlier allClosed newBody => ?_⟩
  exact replace_foldl holds signed (fun old member => closed_iff.2 (allClosed old member)) newBody

namespace Sample

/-- A body that closes more than it opens and leaves a comment open. -/
def openBody : Text := "a(); \x7d\n  b(); /* \x7b  ".toList

end Sample

theorem replace_over_hostileBody :
    locate? .up Sample.crowded = some ⟨1, ⟨1, 23⟩, ⟨2, 2⟩⟩ ∧
      ClosedLines (Text.lines Sample.hostileBody) ∧
      ¬ ClosedLines (Text.lines Sample.openBody) ∧
      replace .up (replace .up Sample.crowded Sample.hostileBody) Sample.openBody = [
        "class A \x7b // \x7b".toList,
        "  void Up(M m) /* \x7b */ \x7b".toList,
        "      a(); \x7d".toList,
        "        b(); /* \x7b".toList,
        "  \x7d   void Down(M m) \x7b \x7d".toList,
        "\x7d".toList] := by
  have located : locate? .up Sample.crowded = some ⟨1, ⟨1, 23⟩, ⟨2, 2⟩⟩ := by decide
  have before : Bounds.SignedBefore .up Sample.crowded ⟨1, ⟨1, 23⟩, ⟨2, 2⟩⟩ :=
    Or.inr ⟨2, 10, by decide, by decide⟩
  have closed : ClosedLines (Text.lines Sample.hostileBody) := by decide
  obtain ⟨overwritten, -, -⟩ := replace_over_closed located before closed
  refine ⟨located, closed, by decide, (overwritten Sample.openBody).trans (by decide)⟩

end MigrationSquash.Code
