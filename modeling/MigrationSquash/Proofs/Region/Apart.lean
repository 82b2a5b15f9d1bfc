import MigrationSquash.Proofs.Region.Replace
import MigrationSquash.Proofs.Region.Silent

/-!
# Two procedures of one file

Another body for one procedure moves the other one up or down and leaves it as it is, if
their line ranges are apart and neither what is written nor what surrounds it declares the
other procedure.  It changes nothing about how many braces the file opens.
-/

set_option autoImplicit false

namespace MigrationSquash.Code

variable {procedure other : Procedure}

theorem clear_of_silent {lines : List Text} (carry : Carry)
    (silent : ∀ line ∈ lines, declares procedure (.code, line) = false) :
    ∀ pair ∈ withCarry carry lines, declares procedure pair = false :=
  fun pair member => declares_of_silent (silent pair.2 (mem_of_mem_withCarry member)) pair.1

theorem endsWord_append_brace (kind : BraceKind) (before : Text) :
    Procedure.EndsWord (before ++ [kind.char]) := by
  intro c last
  obtain rfl : kind.char = c := by simpa using last
  cases kind <;> decide

/-- A signature behind a brace is one on the whole line. -/
theorem signs_after_brace (kind : BraceKind) (before : Text) {s : Text}
    (signs : procedure.Signs s) : procedure.Signs (before ++ kind.char :: s) := by
  have longer := signs.append (endsWord_append_brace kind before) []
  rwa [List.append_nil, List.append_assoc, List.singleton_append] at longer

namespace Bounds

/-- The line range of the first procedure ends before that of the second one starts. -/
def Precedes (first second : Bounds) : Prop := first.closing.line < second.declaration

/-- The line ranges of two procedures, from the declaration to the closing brace, have no
line in common. -/
def Apart (first second : Bounds) : Prop := first.Precedes second ∨ second.Precedes first

instance (first second : Bounds) : Decidable (first.Precedes second) := Nat.decLt _ _

instance (first second : Bounds) : Decidable (first.Apart second) :=
  inferInstanceAs (Decidable (_ ∨ _))

theorem Apart.symm {first second : Bounds} (apart : first.Apart second) : second.Apart first :=
  Or.symm apart

end Bounds

namespace Frame

variable {frame second : Frame}

theorem precedes_iff :
    frame.bounds.Precedes second.bounds ↔
      (frame.above ++ frame.region).length ≤ second.above.length := by
  simp only [Bounds.Precedes, bounds, closing, opening, List.length_append, length_region]
  omega

/-- A frame whose declaration stands below the given lines. -/
theorem exists_between_of_le {front rest : List Text} (same : front ++ rest = frame.lines)
    (long : front.length ≤ frame.above.length) :
    ∃ between, frame.above = front ++ between ∧
      rest = between ++ (frame.region ++ frame.below) := by
  rw [lines] at same
  rcases List.append_eq_append_iff.1 same with ⟨between, above, below⟩ | ⟨more, above, below⟩
  · exact ⟨between, above, below⟩
  · have empty : more = [] := by
      rw [above, List.length_append] at long
      exact List.eq_nil_of_length_eq_zero (by omega)
    subst empty
    exact ⟨[], by simpa using above.symm, by simpa using below.symm⟩

/-- What the lines between two procedures of a file are. -/
theorem Precedes.exists_between (precedes : frame.bounds.Precedes second.bounds)
    (same : frame.lines = second.lines) :
    ∃ between, second.above = frame.above ++ (frame.region ++ between) ∧
      frame.below = between ++ (second.region ++ second.below) := by
  rw [lines, ← List.append_assoc] at same
  obtain ⟨between, above, below⟩ := exists_between_of_le same (precedes_iff.1 precedes)
  exact ⟨between, by rw [above, List.append_assoc], below⟩

/-- The condition never looks at the lines below. -/
theorem Holds.withBelow (holds : frame.Holds procedure) (below : List Text) :
    Holds procedure { frame with below := below } :=
  ⟨holds.clear, holds.declares, holds.noBlock, holds.opens, holds.balanced, holds.closes⟩

theorem Holds.withAbove (holds : frame.Holds procedure) {above : List Text}
    (clear : Clear procedure .code above) : Holds procedure { frame with above := above } :=
  ⟨clear, holds.declares, holds.noBlock, holds.opens, holds.balanced, holds.closes⟩

theorem kindsOfLines_region (holds : frame.Holds procedure) :
    Mode.code.kindsOfLines frame.region =
      Mode.code.kindsOfLines (frame.head ++ [frame.before]) ++
        .opening :: (Mode.code.kindsOfLines frame.pieces ++
          .closing :: Mode.code.kinds frame.after) := by
  have spots := spots_lines { frame with below := [] } (holds.withBelow [])
  have kinds := congrArg (List.map (·.2)) spots
  simp only [List.map_append, List.map_cons, Mode.map_snd_spots] at kinds
  rw [List.append_nil] at kinds
  have single : Mode.code.kindsOfLines [frame.after] = Mode.code.kinds frame.after := by simp
  rw [← single]
  exact kinds

theorem runLines_region (holds : frame.Holds procedure) :
    Mode.code.runLines frame.region = (Mode.code.run frame.after).carry.mode := by
  have opens := holds.opens
  have closes := holds.closes
  rw [region, Mode.runLines_append]
  cases inner : frame.inner with
  | nil =>
      rw [inner] at closes
      have opened := Mode.run_append_brace .opening (frame.last ++ '}' :: frame.after) opens
      have closed := Mode.run_append_brace .closing frame.after closes
      rw [enclose, Mode.runLines_cons, Mode.runLines_nil]
      exact congrArg (·.carry.mode) (opened.trans closed)
  | cons first more =>
      rw [inner] at closes
      have opened := Mode.run_append_brace .opening first opens
      have closed := Mode.run_append_brace .closing frame.after closes
      rw [enclose, Mode.runLines_cons, Mode.runLines_append, Mode.runLines_cons, Mode.runLines_nil]
      refine Eq.trans (congrArg (fun mode : Mode =>
        ((mode.carry.mode.runLines more).run _).carry.mode) opened) ?_
      exact congrArg (·.carry.mode) closed

theorem runLines_region_filled (holds : frame.Holds procedure) {body : Text}
    (filled : (frame.filled body).Holds procedure) :
    Mode.code.runLines (frame.filled body).region = Mode.code.runLines frame.region := by
  rw [runLines_region holds, runLines_region filled]
  exact congrArg Carry.mode (Mode.code.retells_trimEnd frame.after).2

theorem kindsOfLines_lines_of_holds (holds : frame.Holds procedure) :
    Mode.code.kindsOfLines frame.lines =
      Mode.code.kindsOfLines frame.above ++ (Mode.code.kindsOfLines frame.region ++
        (Mode.code.runLines frame.region).kindsOfLines frame.below) := by
  have front : Mode.code.runLines frame.above = .code := holds.clear.runLines
  rw [lines, Mode.kindsOfLines_append, Mode.kindsOfLines_append, front]

theorem kindsOfLines_region_filled {body : Text} (filled : (frame.filled body).Holds procedure) :
    Mode.code.kindsOfLines (frame.filled body).region =
      Mode.code.kindsOfLines (frame.head ++ [frame.before]) ++
        .opening :: (Mode.code.kindsOfLines (frame.filled body).pieces ++
          .closing :: Mode.code.kinds frame.after) := by
  obtain ⟨headKinds, headMode⟩ := kindsOfLines_map_trimEnd .code frame.head
  obtain ⟨beforeKinds, -⟩ := frame.rewrittenBefore_spec (Mode.code.runLines frame.head)
  have before : Mode.code.kindsOfLines
      ((frame.filled body).head ++ [(frame.filled body).before]) =
        Mode.code.kindsOfLines (frame.head ++ [frame.before]) := by
    simp only [Frame.filled, Mode.kindsOfLines_append, Mode.kindsOfLines_cons,
      Mode.kindsOfLines_nil, headKinds, headMode, beforeKinds]
  have after : Mode.code.kinds (frame.filled body).after = Mode.code.kinds frame.after :=
    (Mode.code.retells_trimEnd frame.after).1
  rw [kindsOfLines_region filled, before, after]

theorem totalDelta_filled (holds : frame.Holds procedure) {body : Text}
    (filled : (frame.filled body).Holds procedure) :
    totalDelta (frame.filled body).lines = totalDelta frame.lines := by
  have region : BraceKind.balance (Mode.code.kindsOfLines (frame.filled body).region) =
      BraceKind.balance (Mode.code.kindsOfLines frame.region) := by
    rw [kindsOfLines_region holds, kindsOfLines_region_filled filled]
    simp only [BraceKind.balance_append, BraceKind.balance, holds.balanced.balance,
      filled.balanced.balance]
  rw [totalDelta_eq, totalDelta_eq, kindsOfLines_lines_of_holds holds,
    kindsOfLines_lines_of_holds filled, runLines_region_filled holds filled]
  simp only [BraceKind.balance_append, region]
  rfl

/-- No line of a procedure is signed for the other one. -/
def Unsigned (other : Procedure) (frame : Frame) : Prop :=
  ∀ line ∈ frame.region, ¬ other.Signs line

theorem mem_region_opening (frame : Frame) :
    ∃ rest, frame.before ++ '{' :: rest ∈ frame.region := by
  obtain ⟨first, rest, -, whole⟩ :=
    exists_eq_enclose_append frame.before frame.inner frame.last frame.after []
  rw [List.append_nil] at whole
  exact ⟨first, by rw [region, whole]; simp⟩

theorem mem_region_closing (frame : Frame) :
    ∃ start, start ++ '}' :: frame.after ∈ frame.region := by
  cases inner : frame.inner with
  | nil => exact ⟨frame.before ++ '{' :: frame.last, by simp [region, inner, enclose]⟩
  | cons first more => exact ⟨frame.last, by simp [region, inner, enclose]⟩

/-- Each line of the text between the braces is a part of a line of the procedure, and what
stands before it there ends with a brace. -/
theorem exists_line_of_mem_pieces {piece : Text} (member : piece ∈ frame.pieces) :
    ∃ line ∈ frame.region, ∃ front back, line = front ++ (piece ++ back) ∧
      Procedure.EndsWord front := by
  have opened := endsWord_append_brace .opening frame.before
  cases inner : frame.inner with
  | nil =>
      obtain rfl : piece = frame.last := by simpa [pieces, inner] using member
      exact ⟨_, by rw [region, inner]; exact List.mem_append_right _ List.mem_cons_self,
        frame.before ++ ['{'], '}' :: frame.after, by simp, opened⟩
  | cons first more =>
      rw [pieces, inner] at member
      rcases List.mem_cons.1 member with rfl | later
      · exact ⟨frame.before ++ '{' :: piece, by simp [region, inner, enclose],
          frame.before ++ ['{'], [], by simp, opened⟩
      · rcases List.mem_append.1 later with inMore | isLast
        · exact ⟨piece, by simp [region, inner, enclose, inMore], [], [], by simp,
            Procedure.EndsWord.nil⟩
        · obtain rfl := List.mem_singleton.1 isLast
          exact ⟨frame.last ++ '}' :: frame.after, by simp [region, inner, enclose], [],
            '}' :: frame.after, rfl, Procedure.EndsWord.nil⟩

theorem Unsigned.pieces (unsigned : frame.Unsigned other) :
    ∀ piece ∈ frame.pieces, ¬ other.Signs piece := by
  intro piece member signs
  obtain ⟨line, inRegion, front, back, rfl, boundary⟩ := exists_line_of_mem_pieces member
  exact unsigned _ inRegion (signs.append boundary back)

/-- The text between the braces holds no character that the lines do not hold. -/
theorem not_mem_pieces {c : Char} (absent : ∀ line ∈ frame.lines, c ∉ line) :
    ∀ piece ∈ frame.pieces, c ∉ piece := by
  intro piece member inPiece
  obtain ⟨line, inRegion, front, back, rfl, -⟩ := exists_line_of_mem_pieces member
  apply absent _ (List.mem_append_right frame.above (List.mem_append_left frame.below inRegion))
  exact List.mem_append_right front (List.mem_append_left back inPiece)

theorem unbroken_pieces (unbroken : ∀ line ∈ frame.lines, Text.Unbroken line) :
    ∀ piece ∈ frame.pieces, Text.Unbroken piece :=
  not_mem_pieces unbroken

theorem Holds.closed (holds : frame.Holds procedure)
    (unbroken : ∀ line ∈ frame.lines, Text.Unbroken line) :
    Closed (Text.joinLines frame.pieces) := by
  refine .of_lines (unbroken_pieces unbroken) holds.balanced ?_
  rw [Frame.pieces, Mode.runLines_append, Mode.runLines_cons, Mode.runLines_nil, Carry.carry_mode]
  exact Mode.carry_of_isCode holds.closes

theorem Unsigned.silent (unsigned : frame.Unsigned other)
    (unbroken : ∀ line ∈ frame.lines, Text.Unbroken line) :
    Silent other (Text.joinLines frame.pieces) :=
  .of_lines (unbroken_pieces unbroken) fun piece member =>
    declares_of_not_signs (unsigned.pieces piece member) .code

theorem trimEnd_not_signs {line : Text} (unsigned : ¬ other.Signs line) :
    ¬ other.Signs (Text.trimEnd line) := by
  intro signs
  obtain ⟨blanks, split, -⟩ := Text.trimEnd_append_blanks line
  apply unsigned
  rw [split]
  exact signs.append_right blanks

/-- A signature before the rewritten opening brace stood before the old one. -/
theorem signs_before_of_rewritten (signs : other.Signs (frame.rewrittenBefore ++ ['{'])) :
    other.Signs frame.before := by
  have written : other.Signs frame.rewrittenBefore := signs.of_append_right (by decide)
  unfold rewrittenBefore at written
  split at written
  case isTrue =>
    have visible := isBlankText_of_signs written
    have blank : Text.isBlankText (Text.indentation frame.declaration) = true :=
      Text.allBlank_iff.1 (Text.allBlank_indentation _)
    rw [blank] at visible
    cases visible
  case isFalse =>
    obtain ⟨blanks, split, -⟩ := Text.trimEnd_append_blanks frame.before
    have short : other.Signs (Text.trimEnd frame.before) := written.of_append_right (by decide)
    rw [split]
    exact short.append_right _

/-- A signature on the rewritten line of the closing brace stood behind the old brace. -/
theorem signs_after_of_rewritten
    (signs : other.Signs (Text.indentation frame.declaration ++ '}' :: Text.trimEnd frame.after)) :
    other.Signs frame.after := by
  have noLetter : 'v' ∉ Text.indentation frame.declaration ++ ['}'] := by
    have blank := Text.allBlank_indentation frame.declaration
    simpa using not_mem_of_allBlank blank (show Text.isBlank 'v' = false by decide)
  rw [List.append_cons] at signs
  exact not_imp_not.1 trimEnd_not_signs (signs.of_append_left noLetter)

/-- What is written in place of a procedure does not declare the other one, unless the body
does. -/
theorem Unsigned.filled (unsigned : frame.Unsigned other) {body : Text}
    (silent : Silent other body) :
    ∀ line ∈ (frame.filled body).region, declares other (.code, line) = false := by
  have blankIndent := frame.allBlank_bodyIndent
  intro line member
  simp only [region, Frame.filled, enclose, List.mem_append, List.mem_cons, List.mem_map,
    List.not_mem_nil, or_false] at member
  rcases member with ⟨old, inHead, rfl⟩ | rfl | inBody | rfl
  · apply declares_of_not_signs
    exact trimEnd_not_signs (unsigned old (List.mem_append_left _ inHead))
  · apply declares_of_not_signs
    intro signs
    obtain ⟨rest, inRegion⟩ := frame.mem_region_opening
    exact unsigned _ inRegion ((signs_before_of_rewritten signs).append_right _)
  · exact silent.indentBlock blankIndent line inBody
  · apply declares_of_not_signs
    intro signs
    obtain ⟨start, inRegion⟩ := frame.mem_region_closing
    exact unsigned _ inRegion (signs_after_brace .closing start (signs_after_of_rewritten signs))

/-- Lines that declare nothing where they stand give way to others that leave the same open. -/
theorem clear_swap {start old new between : List Text} (starts : Mode.code.runLines start = .code)
    (same : Mode.code.runLines new = Mode.code.runLines old)
    (silent : ∀ pair ∈ withCarry .code new, declares procedure pair = false)
    (clear : Clear procedure .code (start ++ (old ++ between))) :
    Clear procedure .code (start ++ (new ++ between)) := by
  have ends : (Carry.code.mode.runLines start).carry = .code := congrArg Mode.carry starts
  obtain ⟨startSilent, rest⟩ := clear_append_iff.1 clear
  rw [ends] at rest
  refine clear_append_iff.2 ⟨startSilent, ?_⟩
  rw [ends]
  refine clear_append_iff.2 ⟨silent, ?_⟩
  change Clear procedure (Mode.code.runLines new).carry between
  rw [same]
  exact (clear_append_iff.1 rest).2

/-- After another body for one procedure the frame of the other one stands between other
lines, if nothing above it declares it now. -/
theorem Holds.exists_filled_of_silent (holds : frame.Holds procedure)
    (otherHolds : second.Holds other) (same : frame.lines = second.lines)
    (apart : frame.bounds.Apart second.bounds) {body : Text}
    (filled : (frame.filled body).Holds procedure)
    (silent : frame.bounds.Precedes second.bounds →
      ∀ pair ∈ withCarry .code (frame.filled body).region, Code.declares other pair = false) :
    ∃ above below, Holds other { second with above := above, below := below } ∧
      (frame.filled body).lines = Frame.lines { second with above := above, below := below } ∧
      (frame.filled body).bounds.Apart (Frame.bounds { second with above := above, below := below })
      := by
  rcases apart with first | later
  · obtain ⟨between, above, below⟩ := Precedes.exists_between first same
    have clear := otherHolds.clear
    rw [above] at clear
    have moved := clear_swap holds.clear.runLines (runLines_region_filled holds filled)
      (silent first) clear
    refine ⟨frame.above ++ ((frame.filled body).region ++ between), second.below,
      (otherHolds.withAbove moved).withBelow second.below, ?_, Or.inl ?_⟩
    · rw [lines, lines, Frame.filled, below]
      simp [region]
    · rw [precedes_iff]
      simp [Frame.filled, region]
  · obtain ⟨between, above, below⟩ := Precedes.exists_between later same.symm
    refine ⟨second.above, between ++ ((frame.filled body).region ++ frame.below),
      otherHolds.withBelow _, ?_, Or.inr ?_⟩
    · rw [lines, lines, Frame.filled, above]
      simp [region]
    · rw [precedes_iff]
      rw [precedes_iff] at later
      exact later

theorem Holds.exists_filled (holds : frame.Holds procedure) (otherHolds : second.Holds other)
    (same : frame.lines = second.lines) (apart : frame.bounds.Apart second.bounds)
    (unsigned : frame.Unsigned other) {body : Text}
    (filled : (frame.filled body).Holds procedure) (silent : Silent other body) :
    ∃ above below, Holds other { second with above := above, below := below } ∧
      (frame.filled body).lines = Frame.lines { second with above := above, below := below } ∧
      (frame.filled body).bounds.Apart (Frame.bounds { second with above := above, below := below })
      :=
  holds.exists_filled_of_silent otherHolds same apart filled fun _ =>
    clear_of_silent .code (unsigned.filled silent)

end Frame

/-- Blank lines around a text are cut off with the blanks. -/
theorem trim_joinLines_enclosed {last : Text} (allBlank : Text.AllBlank last) (lines : List Text) :
    Text.trim (Text.joinLines ([] :: lines ++ [last])) = Text.trim (Text.joinLines lines) := by
  have feed : Text.AllBlank ('\n' :: last) := .cons (by decide) allBlank
  have single : Text.AllBlank ['\n'] := Text.allBlank_singleton (by decide)
  by_cases empty : lines = []
  · subst empty
    exact Text.trim_append_blanks feed []
  · have first := Text.joinLines_append ([] :: lines) [last] (by simp) (by simp)
    have second := Text.joinLines_append [[]] lines (by simp) empty
    rw [List.singleton_append] at second
    rw [first, second, Text.joinLines_singleton, Text.joinLines_singleton,
      Text.trim_append_blanks feed, List.nil_append, ← List.singleton_append,
      Text.trim_blanks_append single]

/-- Two closed bodies are found where they were written, one after the other. -/
theorem extract_replace_both {frame second : Frame} (holds : frame.Holds procedure)
    (otherHolds : second.Holds other) (same : frame.lines = second.lines)
    (apart : frame.bounds.Apart second.bounds) (signed : frame.Signed procedure)
    (otherSigned : second.Signed other) (unsigned : frame.Unsigned other)
    (otherUnsigned : second.Unsigned procedure) {body otherBody : Text} (closed : Closed body)
    (otherClosed : Closed otherBody) (silent : Silent other body)
    (otherSilent : Silent procedure otherBody) :
    let replaced := replace other (replace procedure frame.lines body) otherBody
    (extract procedure replaced).text =
        Text.trim (Text.joinLines (indentBlock body frame.bodyIndent)) ∧
      (extract other replaced).text =
        Text.trim (Text.joinLines (indentBlock otherBody second.bodyIndent)) ∧
      (locate? procedure replaced).isSome = true ∧ (locate? other replaced).isSome = true ∧
      totalDelta replaced = totalDelta frame.lines := by
  have filled := holds.filled signed closed
  obtain ⟨above, below, moved, split, stillApart⟩ :=
    holds.exists_filled otherHolds same apart unsigned filled silent
  have otherFilled : (Frame.filled { second with above := above, below := below } otherBody).Holds
      other := moved.filled otherSigned otherClosed
  obtain ⟨above', below', moved', split', -⟩ :=
    moved.exists_filled filled split.symm stillApart.symm otherUnsigned otherFilled otherSilent
  have result : replace other (replace procedure frame.lines body) otherBody =
      (Frame.filled { second with above := above, below := below } otherBody).lines := by
    rw [replace_lines holds, split, replace_lines moved]
  refine ⟨?_, ?_, ?_, ?_, ?_⟩
  · rw [result, split', extract_lines moved']
    exact trim_joinLines_enclosed (Text.allBlank_indentation _) _
  · rw [result, extract_lines otherFilled]
    exact trim_joinLines_enclosed (Text.allBlank_indentation _) _
  · rw [result, split', moved'.locate?_eq]
    rfl
  · rw [result, otherFilled.locate?_eq]
    rfl
  · rw [result, Frame.totalDelta_filled moved otherFilled, ← split,
      Frame.totalDelta_filled holds filled]

end MigrationSquash.Code
