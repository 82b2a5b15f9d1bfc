import MigrationSquash.Proofs.Region.Frame
import MigrationSquash.Proofs.Scan.Layout

/-!
# Another body in a frame

What is found at the bounds of a frame, and the frame that a replacement makes of it.  Main
statement: a body whose braces match and that leaves nothing open is found again where it
was written, as long as the declaration stands before the brace.
-/

set_option autoImplicit false

namespace MigrationSquash.Code

open Text (joinLines)

variable {procedure : Procedure}

@[simp] theorem lineAt_length_append (left : List Text) (line : Text) (right : List Text) :
    lineAt (left ++ line :: right) left.length = line := by
  simp [lineAt]

theorem takeBytes_width_append (left right : Text) :
    Text.takeBytes (Text.width left) (left ++ right) = left := by
  rw [Text.takeBytes, Text.splitAtByte_width_append]

theorem dropBytes_width_append (left right : Text) :
    Text.dropBytes (Text.width left) (left ++ right) = right := by
  rw [Text.dropBytes, Text.splitAtByte_width_append]

theorem dropBytes_after_brace (kind : BraceKind) (left right : Text) :
    Text.dropBytes (Text.width left + 1) (left ++ kind.char :: right) = right := by
  have width : Text.width (left ++ [kind.char]) = Text.width left + 1 := by
    rw [Text.width_append, Text.width_cons, Text.width_nil, Mode.width_braceChar]
  have whole := dropBytes_width_append (left ++ [kind.char]) right
  rwa [width, List.append_assoc, List.singleton_append] at whole

/-- The text between the braces, line by line. -/
def Bounds.pieces (bounds : Bounds) (lines : List Text) : List Text :=
  if bounds.opening.line = bounds.closing.line then
    [Text.dropBytes (bounds.opening.offset + 1) (beforeSpot lines bounds.closing)]
  else
    afterBrace lines bounds.opening :: bounds.innerLines lines ++ [beforeSpot lines bounds.closing]

theorem Bounds.body_eq_joinLines (bounds : Bounds) (lines : List Text) :
    bounds.body lines = joinLines (bounds.pieces lines) := by
  unfold Bounds.body Bounds.pieces
  split
  · exact (Text.joinLines_singleton _).symm
  · rfl

namespace Frame

variable (frame : Frame)

theorem lineAt_declaration : lineAt frame.lines frame.bounds.declaration = frame.declaration := by
  obtain ⟨rest, start⟩ := frame.region_eq_cons
  rw [lines, start, List.cons_append]
  exact lineAt_length_append _ _ _

theorem lines_eq_opening :
    ∃ first rest, first :: rest = frame.inner ++ (frame.last ++ '}' :: frame.after) :: frame.below ∧
      frame.lines = (frame.above ++ frame.head) ++ (frame.before ++ '{' :: first) :: rest ∧
      (frame.above ++ frame.head).length = frame.opening.line := by
  obtain ⟨first, rest, split, whole⟩ := frame.lines_eq_append_brace
  exact ⟨first, rest, split, by rw [whole, List.append_assoc], by simp [opening]⟩

theorem beforeSpot_opening : beforeSpot frame.lines frame.opening = frame.before := by
  obtain ⟨first, rest, -, whole, number⟩ := frame.lines_eq_opening
  rw [beforeSpot, whole, ← number, lineAt_length_append]
  exact takeBytes_width_append _ _

theorem afterBrace_opening :
    ∃ rest, afterBrace frame.lines frame.opening :: rest =
      frame.inner ++ (frame.last ++ '}' :: frame.after) :: frame.below := by
  obtain ⟨first, rest, split, whole, number⟩ := frame.lines_eq_opening
  refine ⟨rest, ?_⟩
  rw [← split, afterBrace, whole, ← number, lineAt_length_append]
  exact congrArg (· :: rest) (dropBytes_after_brace .opening _ _)

/-- The line of the closing brace is that of the opening one, or it starts with what stands
before the closing brace. -/
theorem lines_eq_closing :
    ∃ (front : List Text) (start : Text),
      frame.lines = front ++ (start ++ '}' :: frame.after) :: frame.below ∧
      front.length = frame.closing.line ∧ Text.width start = frame.closing.offset ∧
      (frame.inner = [] ∧ front = frame.above ++ frame.head ∧
          start = frame.before ++ '{' :: frame.last ∨
        ∃ first more, frame.inner = first :: more ∧
          front = frame.above ++ frame.head ++ [frame.before ++ '{' :: first] ++ more ∧
          start = frame.last) := by
  cases inner : frame.inner with
  | nil =>
      refine ⟨_, _, ?_, ?_, ?_, Or.inl ⟨rfl, rfl, rfl⟩⟩
      · simp [lines, region, inner, enclose]
      · simp [closing, opening, inner]
      · simp only [closing, opening, inner, if_true, Text.width_append, Text.width_cons,
          show '{'.utf8Size = 1 from rfl]
        omega
  | cons first more =>
      refine ⟨_, _, ?_, ?_, ?_, Or.inr ⟨first, more, rfl, rfl, rfl⟩⟩
      · simp [lines, region, inner, enclose]
      · simp [closing, opening, inner]
        omega
      · simp [closing, inner]

theorem afterBrace_closing : afterBrace frame.lines frame.closing = frame.after := by
  obtain ⟨front, start, whole, number, offset, -⟩ := frame.lines_eq_closing
  rw [afterBrace, ← number, ← offset, whole, lineAt_length_append]
  exact dropBytes_after_brace .closing _ _

theorem drop_closing : frame.lines.drop (frame.closing.line + 1) = frame.below := by
  obtain ⟨front, start, whole, number, -⟩ := frame.lines_eq_closing
  have length : frame.closing.line + 1 = (front ++ [start ++ '}' :: frame.after]).length := by
    rw [List.length_append, number, List.length_singleton]
  rw [whole, List.append_cons front, length, List.drop_left]

theorem pieces_bounds : frame.bounds.pieces frame.lines = frame.pieces := by
  obtain ⟨front, start, whole, number, offset, shape⟩ := frame.lines_eq_closing
  have before : beforeSpot frame.lines frame.closing = start := by
    rw [beforeSpot, ← number, ← offset, whole, lineAt_length_append]
    exact takeBytes_width_append _ _
  rcases shape with ⟨inner, rfl, rfl⟩ | ⟨first, more, inner, rfl, rfl⟩
  · have sameLine : frame.bounds.opening.line = frame.bounds.closing.line := by
      simp [bounds, closing, inner]
    rw [Bounds.pieces, if_pos sameLine, pieces, inner]
    exact congrArg (fun s => [s])
      ((congrArg (Text.dropBytes _) before).trans (dropBytes_after_brace .opening _ _))
  · have otherLine : frame.bounds.opening.line ≠ frame.bounds.closing.line := by
      simp [bounds, closing, inner]
    have after : afterBrace frame.lines frame.opening = first := by
      obtain ⟨rest, split⟩ := frame.afterBrace_opening
      rw [inner] at split
      exact (List.cons.inj split).1
    have between : frame.bounds.innerLines frame.lines = more := by
      have length : frame.bounds.opening.line + 1 =
          (frame.above ++ frame.head ++ [frame.before ++ '{' :: first]).length := by
        simp only [bounds, opening, List.length_append, List.length_singleton]
      rw [Bounds.innerLines, show frame.bounds.closing.line = frame.closing.line from rfl,
        ← number, whole, List.take_left, length, List.drop_left]
    rw [Bounds.pieces, if_neg otherLine, between, pieces, inner]
    exact congrArg₂ (fun s t => s :: more ++ [t]) after before

theorem body_bounds : frame.bounds.body frame.lines = joinLines frame.pieces := by
  rw [Bounds.body_eq_joinLines, pieces_bounds]

/-- What stands before the brace that opens another body. -/
def rewrittenBefore : Text :=
  if Text.isBlankText frame.before then Text.indentation frame.declaration
  else Text.trimEnd frame.before ++ [' ']

/-- How far another body is moved in. -/
def bodyIndent : Text := Text.indentation frame.declaration ++ Text.indentStep

/-- The frame with another body. -/
def filled (body : Text) : Frame where
  above := frame.above
  head := frame.head.map Text.trimEnd
  before := frame.rewrittenBefore
  inner := [] :: indentBlock body frame.bodyIndent
  last := Text.indentation frame.declaration
  after := Text.trimEnd frame.after
  below := frame.below

theorem replace_bounds (body : Text) :
    frame.bounds.replace frame.lines body = (frame.filled body).lines := by
  obtain ⟨first, rest, -, whole, number⟩ := frame.lines_eq_opening
  have above : frame.lines.take frame.bounds.declaration = frame.above := by
    rw [lines, bounds, List.take_left]
  have head : (frame.lines.take frame.bounds.opening.line).drop frame.bounds.declaration =
      frame.head := by
    rw [whole, show frame.bounds.opening.line = frame.opening.line from rfl, ← number,
      List.take_left, bounds, List.drop_left]
  have opens : openingLine (Text.indentation frame.declaration) frame.before =
      frame.rewrittenBefore ++ ['{'] := by
    unfold openingLine rewrittenBefore
    split
    · rfl
    · simp
  rw [Bounds.replace, lineAt_declaration, above, head, show frame.bounds.opening = frame.opening
    from rfl, show frame.bounds.closing = frame.closing from rfl, beforeSpot_opening,
    afterBrace_closing, drop_closing, opens]
  simp [lines, region, filled, enclose, bodyIndent]

end Frame

/-- Replacing the body of a procedure fills its frame. -/
theorem replace_lines {frame : Frame} (holds : frame.Holds procedure) (body : Text) :
    replace procedure frame.lines body = (frame.filled body).lines := by
  rw [replace, holds.locate?_eq]
  exact frame.replace_bounds body

theorem extract_lines {frame : Frame} (holds : frame.Holds procedure) :
    (extract procedure frame.lines).text = Text.trim (joinLines frame.pieces) := by
  rw [extract, extract?, holds.locate?_eq, ← frame.body_bounds]
  rfl

theorem isCode_run_trimEnd (mode : Mode) (s : Text) :
    (mode.run (Text.trimEnd s)).isCode = (mode.run s).isCode := by
  obtain ⟨blanks, split, allBlank⟩ := Text.trimEnd_append_blanks s
  have longer := Mode.isCode_run_blanks allBlank (mode.run (Text.trimEnd s))
  rw [← Mode.run_append, ← split] at longer
  exact longer.symm

theorem kindsOfLines_map_trimEnd (mode : Mode) (lines : List Text) :
    mode.kindsOfLines (lines.map Text.trimEnd) = mode.kindsOfLines lines ∧
      mode.runLines (lines.map Text.trimEnd) = mode.runLines lines := by
  induction lines generalizing mode with
  | nil => exact ⟨rfl, rfl⟩
  | cons line rest ih =>
      obtain ⟨kinds, carries⟩ := mode.retells_trimEnd line
      obtain ⟨laterKinds, laterModes⟩ := ih (mode.run line).carry.mode
      rw [List.map_cons, Mode.kindsOfLines_cons, Mode.kindsOfLines_cons, Mode.runLines_cons,
        Mode.runLines_cons, kinds, carries, laterKinds, laterModes]
      exact ⟨rfl, rfl⟩

namespace Frame

variable {frame : Frame}

/-- The declaration stands before the opening brace. -/
def Signed (procedure : Procedure) (frame : Frame) : Prop :=
  frame.head ≠ [] ∨ procedure.Signs frame.before

theorem rewrittenBefore_spec (frame : Frame) (mode : Mode) :
    mode.kinds frame.rewrittenBefore = mode.kinds frame.before ∧
      (mode.run frame.rewrittenBefore).isCode = (mode.run frame.before).isCode := by
  unfold rewrittenBefore
  split
  case isTrue blank =>
    have allBlank := Text.allBlank_iff.2 blank
    have indent := Text.allBlank_indentation frame.declaration
    rw [Mode.kinds_blanks indent, Mode.kinds_blanks allBlank, Mode.isCode_run_blanks indent,
      Mode.isCode_run_blanks allBlank]
    exact ⟨rfl, rfl⟩
  case isFalse =>
    have space : Text.AllBlank [' '] := Text.allBlank_singleton (by decide)
    rw [Mode.kinds_append, Mode.kinds_blanks space, List.append_nil,
      (mode.retells_trimEnd frame.before).1, Mode.run_append, Mode.isCode_run_blanks space,
      isCode_run_trimEnd]
    exact ⟨rfl, rfl⟩

theorem isBlankText_of_signs {line : Text} (signs : procedure.Signs line) :
    Text.isBlankText line = false := by
  obtain ⟨before, signature, after, rfl, -, isSignature⟩ := signs
  obtain ⟨rest, rfl, -⟩ := isSignature.eq_cons
  have visible : Text.isBlank 'v' = false := by decide
  simp [Text.isBlankText, visible]

theorem rewrittenBefore_of_signs (signs : procedure.Signs frame.before) :
    frame.rewrittenBefore = Text.trimEnd frame.before ++ [' '] :=
  if_neg (by rw [isBlankText_of_signs signs]; decide)

theorem declaration_filled_of_head {line : Text} {more : List Text}
    (head : frame.head = line :: more) (body : Text) :
    (frame.filled body).declaration = Text.trimEnd line :=
  have rewritten : (frame.filled body).head = Text.trimEnd line :: more.map Text.trimEnd :=
    congrArg (List.map Text.trimEnd) head
  declaration_of_head rewritten

theorem declaration_filled_of_headless (head : frame.head = []) (body : Text) :
    (frame.filled body).declaration = frame.rewrittenBefore ++ ['{'] := by
  simp [declaration, region, filled, head, enclose]

/-- Another body leaves the declaration a declaration. -/
theorem declares_filled (holds : frame.Holds procedure) (signed : frame.Signed procedure)
    (body : Text) :
    Code.declares procedure (.code, (frame.filled body).declaration) = true := by
  have declared := holds.declares
  cases head : frame.head with
  | cons line more =>
      rw [declaration_filled_of_head head, declares_trimEnd, ← declaration_of_head head]
      exact declared
  | nil =>
      have signs := signed.resolve_left fun nonempty => nonempty head
      obtain ⟨first, old⟩ := exists_declaration_of_headless head
      rw [old, declares_append signs] at declared
      rw [declaration_filled_of_headless head, rewrittenBefore_of_signs signs, List.append_assoc,
        declares_append_of_not_mem (by decide), declares_trimEnd]
      exact declared

theorem allBlank_bodyIndent (frame : Frame) : Text.AllBlank frame.bodyIndent :=
  (Text.allBlank_indentation _).append Text.allBlank_indentStep

theorem unbroken_bodyIndent (frame : Frame) : Text.Unbroken frame.bodyIndent := by
  have step : Text.Unbroken Text.indentStep := by
    unfold Text.Unbroken
    decide
  have own : Text.Unbroken (Text.indentation frame.declaration) := by
    intro member
    have indents : Text.isIndent '\n' = true := List.mem_takeWhile_imp member
    cases indents
  exact own.append step

/-- A closed body is where it was written. -/
theorem Holds.filled (holds : frame.Holds procedure) (signed : frame.Signed procedure)
    {body : Text} (closed : Closed body) : (frame.filled body).Holds procedure := by
  obtain ⟨kinds, carries⟩ := kindsOfLines_indentBlock frame.allBlank_bodyIndent body
  obtain ⟨headKinds, headMode⟩ := kindsOfLines_map_trimEnd .code frame.head
  obtain ⟨beforeKinds, beforeMode⟩ := frame.rewrittenBefore_spec (Mode.code.runLines frame.head)
  have bodyMode : Mode.code.runLines ([] :: indentBlock body frame.bodyIndent) = .code :=
    Mode.runLines_eq_code (carries.trans closed.ends)
  refine ⟨holds.clear, declares_filled holds signed body, ?_, ?_, ?_, ?_⟩
  · intro kind member
    apply holds.noBlock kind
    simp only [Frame.filled, Mode.kindsOfLines_append, Mode.kindsOfLines_cons, headKinds, headMode,
      beforeKinds] at member ⊢
    exact member
  · simp only [Frame.filled, headMode, beforeMode]
    exact holds.opens
  · have blank := Text.allBlank_indentation frame.declaration
    have last := Mode.kinds_blanks blank
    simp only [pieces, Frame.filled, Mode.kindsOfLines_append, bodyMode]
    rw [Mode.kindsOfLines_cons, Mode.kindsOfLines_cons, last]
    simp only [Mode.kindsOfLines_nil, List.append_nil, Mode.kinds_nil, List.nil_append]
    exact kinds ▸ closed.balanced
  · simp only [Frame.filled, bodyMode]
    rw [Mode.isCode_run_blanks (Text.allBlank_indentation _)]
    rfl

end Frame

end MigrationSquash.Code
