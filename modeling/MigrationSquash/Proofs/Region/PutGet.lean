import MigrationSquash.Proofs.Region.Divided
import MigrationSquash.Proofs.Scan.ClosedLines

/-!
# A body that is written is read again

Main statement: where the signature ends before the opening brace, a closed body that is put into
a procedure is what is read from it, below the same declaration, between the same lines, and with as
many more opening braces than closing ones in the file.
-/

set_option autoImplicit false

namespace MigrationSquash.Code

open Text (joinLines)

variable {procedure : Procedure}

/-- The lines above the declaration and below the closing brace stay around a body. -/
structure Surrounds (lines replaced : List Text) (bounds moved : Bounds) : Prop where
  declaration : moved.declaration = bounds.declaration
  above : replaced.take moved.declaration = lines.take bounds.declaration
  below : replaced.drop (moved.closing.line + 1) = lines.drop (bounds.closing.line + 1)

theorem Frame.surrounds_filled (frame : Frame) (body : Text) :
    Surrounds frame.lines (frame.filled body).lines frame.bounds (frame.filled body).bounds where
  declaration := rfl
  above := by
    rw [Frame.bounds, Frame.lines, List.take_left, Frame.bounds, Frame.lines, List.take_left]
    rfl
  below := (frame.filled body).drop_closing.trans frame.drop_closing.symm

/-- What is put into a procedure is read from it. -/
theorem extract_replace_closed {lines : List Text} {bounds : Bounds} {body : Text}
    (located : locate? procedure lines = some bounds)
    (before : bounds.SignedBefore procedure lines) (closed : ClosedLines (Text.lines body)) :
    (extract procedure (replace procedure lines body)).text =
        Text.trim (joinLines (indentBlock body (bodyIndent bounds lines))) ∧
      (extract procedure (replace procedure lines body)).start = (extract procedure lines).start ∧
      (∃ moved, locate? procedure (replace procedure lines body) = some moved ∧
        Surrounds lines (replace procedure lines body) bounds moved) ∧
      totalDelta (replace procedure lines body) = totalDelta lines := by
  obtain ⟨frame, holds, rfl, rfl⟩ := locate?_eq_some_iff.1 located
  have filled : (frame.filled body).Holds procedure :=
    holds.filled (Frame.signed_of_signedBefore before) (closed_iff.2 closed)
  rw [replace_lines holds]
  refine ⟨?_, ?_, ⟨(frame.filled body).bounds, filled.locate?_eq, frame.surrounds_filled body⟩,
    Frame.totalDelta_filled holds filled⟩
  · rw [extract_lines filled, bodyIndent, frame.lineAt_declaration]
    exact trim_joinLines_enclosed (Text.allBlank_indentation _) _
  · rw [extract, extract?, filled.locate?_eq, extract, extract?, holds.locate?_eq]
    rfl

namespace Sample

/-- A block that is opened behind a comment and has something behind it. -/
def crowded : List Text := [
  "class A \x7b // \x7b".toList,
  "  void Up(M m) /* \x7b */ \x7b m.Run(\"\x7b\");".toList,
  "  \x7d   void Down(M m) \x7b \x7d".toList,
  "\x7d".toList]

/-- A body whose text holds braces that are data, on a line of a verbatim string too. -/
def hostileBody : Text := "m.Sql(@\"\n  \x7d \x7d\");\nif (b) \x7b c('\x7d'); \x7d".toList

end Sample

theorem extract_replace_hostileBody :
    locate? .up Sample.crowded = some ⟨1, ⟨1, 23⟩, ⟨2, 2⟩⟩ ∧
      (extract .up (replace .up Sample.crowded Sample.hostileBody)).text =
        "m.Sql(@\"\n  \x7d \x7d\");\n      if (b) \x7b c('\x7d'); \x7d".toList ∧
      (extract .up (replace .up Sample.crowded Sample.hostileBody)).start = 1 := by
  have located : locate? .up Sample.crowded = some ⟨1, ⟨1, 23⟩, ⟨2, 2⟩⟩ := by decide
  have before : Bounds.SignedBefore .up Sample.crowded ⟨1, ⟨1, 23⟩, ⟨2, 2⟩⟩ :=
    Or.inr ⟨2, 10, by decide, by decide⟩
  have closed : ClosedLines (Text.lines Sample.hostileBody) := by decide
  obtain ⟨text, start, -, -⟩ := extract_replace_closed located before closed
  refine ⟨located, text.trans (by decide), start.trans (by decide)⟩

end MigrationSquash.Code
