import MigrationSquash.Proofs.Region.Declared
import MigrationSquash.Proofs.Region.Overwritten
import MigrationSquash.Proofs.Region.PutGet

/-!
# Bodies of two procedures

Closed bodies are written into the two procedures of a file in either order, and neither changes
what is read from the other procedure.  The line on which the upper procedure is closed takes
care: it is written anew behind a closed body, so that it starts in code now, and a signature
behind the brace is found there that was passed over before.
-/

set_option autoImplicit false

namespace MigrationSquash.Code

variable {procedure other : Procedure} {frame second : Frame}

theorem withCarry_map_trimEnd (carry : Carry) (lines : List Text) :
    withCarry carry (lines.map Text.trimEnd) =
      (withCarry carry lines).map fun pair => (pair.1, Text.trimEnd pair.2) := by
  have trimmed : (withCarry carry lines).map (fun pair => Text.trimEnd pair.2) =
      lines.map Text.trimEnd := by
    conv_rhs => rw [← map_snd_withCarry carry lines, List.map_map]
    rfl
  rw [← trimmed]
  exact withCarry_map (fun carry line => carry.mode.retells_trimEnd line) carry lines

namespace Frame

/-- The indentation of the first line inside the braces, where it has a line of its own. -/
def firstIndent (frame : Frame) : Option Nat :=
  match frame.inner with
  | [] => none
  | first :: more =>
      if Text.isBlankText first then
        (more.find? (!Text.isBlankText ·)).map (Text.indentation · |>.length)
      else none

theorem firstIndent_bounds (frame : Frame) :
    frame.bounds.firstIndent frame.lines = frame.firstIndent := by
  have pieces := frame.pieces_bounds
  unfold Bounds.pieces at pieces
  unfold Bounds.firstIndent firstIndent
  cases inner : frame.inner with
  | nil =>
      have sameLine : frame.bounds.opening.line = frame.bounds.closing.line := by
        simp [bounds, closing, inner]
      simp [sameLine]
  | cons first more =>
      have otherLine : frame.bounds.opening.line ≠ frame.bounds.closing.line := by
        simp [bounds, closing, inner]
      rw [if_neg otherLine, Frame.pieces, inner, List.cons_append, List.cons_append] at pieces
      obtain ⟨after, rest⟩ := List.cons.inj pieces
      obtain ⟨between, -⟩ := List.append_inj' rest rfl
      rw [after, between]
      cases blank : Text.isBlankText first <;> simp [otherLine, blank]

end Frame

theorem indent_extract_lines (holds : frame.Holds procedure) :
    (extract procedure frame.lines).indent = frame.firstIndent := by
  rw [extract, extract?, holds.locate?_eq, ← frame.firstIndent_bounds]
  rfl

/-- What is read from a procedure whose frame stands between other lines. -/
theorem extract_moved {above below : List Text} (holds : frame.Holds procedure)
    (moved : Frame.Holds procedure { frame with above := above, below := below }) :
    (extract procedure (Frame.lines { frame with above := above, below := below })).text =
        (extract procedure frame.lines).text ∧
      (extract procedure (Frame.lines { frame with above := above, below := below })).indent =
        (extract procedure frame.lines).indent := by
  rw [extract_lines moved, extract_lines holds, indent_extract_lines moved,
    indent_extract_lines holds]
  exact ⟨rfl, rfl⟩

namespace Frame

/-- No line of a procedure above another one declares the other one where it stands. -/
theorem Holds.silent_above (holds : frame.Holds procedure) (otherHolds : second.Holds other)
    (same : frame.lines = second.lines) (precedes : frame.bounds.Precedes second.bounds) :
    ∀ pair ∈ withCarry .code frame.region, Code.declares other pair = false := by
  obtain ⟨between, above, -⟩ := Precedes.exists_between precedes same
  have clear := otherHolds.clear
  have ends : (Carry.code.mode.runLines frame.above).carry = .code := holds.clear.ends
  rw [above, clear_append_iff, ends, clear_append_iff] at clear
  exact clear.2.1

/-- Nor does one of them once another body is written, if neither the body is signed for the other
procedure nor what stands behind the closing brace. -/
theorem silent_filled (silent : ∀ pair ∈ withCarry .code frame.region,
      Code.declares other pair = false) {body : Text}
    (unsigned : ∀ line ∈ Text.lines body, other.isDeclaredIn line = false)
    (behind : ¬ other.Signs frame.after) :
    ∀ pair ∈ withCarry .code (frame.filled body).region, Code.declares other pair = false := by
  obtain ⟨first, rest, -, whole⟩ :=
    exists_eq_enclose_append frame.before frame.inner frame.last frame.after []
  rw [List.append_nil] at whole
  have headMode := (kindsOfLines_map_trimEnd .code frame.head).2
  have headCarry : (Carry.code.mode.runLines (frame.head.map Text.trimEnd)).carry =
      (Carry.code.mode.runLines frame.head).carry := congrArg Mode.carry headMode
  rw [region, whole, withCarry_append] at silent
  intro pair member
  have region : (frame.filled body).region = frame.head.map Text.trimEnd ++
      (frame.rewrittenBefore ++ ['{']) :: (indentBlock body frame.bodyIndent ++
        [Text.indentation frame.declaration ++ '}' :: Text.trimEnd frame.after]) := rfl
  rw [region, withCarry_append, withCarry_map_trimEnd, headCarry] at member
  rcases List.mem_append.1 member with inHead | behindHead
  · obtain ⟨⟨carry, old⟩, inside, rfl⟩ := List.mem_map.1 inHead
    rw [declares_trimEnd]
    exact silent (carry, old) (List.mem_append_left _ inside)
  · rcases List.mem_cons.1 behindHead with rfl | inBody
    · -- what stands before the opening brace is signed only if the old line was
      have old := silent _ (List.mem_append_right _ List.mem_cons_self)
      by_cases signs : other.Signs frame.before
      · rw [declares_append signs] at old
        rw [rewrittenBefore_of_signs signs, List.append_assoc,
          declares_append_of_not_mem (by decide), declares_trimEnd]
        exact old
      · exact declares_of_not_signs (fun new => signs (signs_before_of_rewritten new)) _
    · obtain ⟨carry, line⟩ := pair
      rcases List.mem_append.1 (mem_of_mem_withCarry inBody) with inside | isLast
      · obtain ⟨⟨start, old⟩, inLines, rfl⟩ := List.mem_map.1 inside
        refine declares_of_silent (Silent.indentLine frame.allBlank_bodyIndent start ?_) carry
        apply declares_of_not_signs
        rw [← Procedure.isDeclaredIn_iff, unsigned old (mem_of_mem_withCarry inLines)]
        exact Bool.false_ne_true
      · obtain rfl := List.mem_singleton.1 isLast
        exact declares_of_not_signs (fun new => behind (signs_after_of_rewritten new)) carry

end Frame

namespace Bounds

/-- The line of the closing brace is one on which a declaration is looked for: it starts in code
and not like the line of a comment. -/
def ClosesOpenly (lines : List Text) (bounds : Bounds) : Prop :=
  ∃ line, (withCarry .code lines)[bounds.closing.line]? = some (.code, line) ∧
    isCommented line = false

/-- No signature of the other procedure stands behind the closing brace, or it would have been
found there. -/
def ClosesClear (other : Procedure) (lines : List Text) (bounds : Bounds) : Prop :=
  bounds.ClosesOpenly lines ∨ other.isDeclaredIn (afterBrace lines bounds.closing) = false

end Bounds

theorem length_withCarry (carry : Carry) (lines : List Text) :
    (withCarry carry lines).length = lines.length := by
  rw [← List.length_map Prod.snd, map_snd_withCarry]

theorem getElem?_withCarry_append (carry : Carry) (front : List Text) (line : Text)
    (below : List Text) :
    (withCarry carry (front ++ line :: below))[front.length]? =
      some ((carry.mode.runLines front).carry, line) := by
  rw [withCarry_append, List.getElem?_append_right (by rw [length_withCarry]), length_withCarry,
    Nat.sub_self]
  rfl

namespace Frame

/-- A signature behind the closing brace would have been found before the declaration below. -/
theorem not_signs_after (otherHolds : second.Holds other) (same : frame.lines = second.lines)
    (precedes : frame.bounds.Precedes second.bounds)
    (clear : frame.bounds.ClosesClear other frame.lines) : ¬ other.Signs frame.after := by
  intro signs
  rcases clear with ⟨line, found, plain⟩ | unsigned
  · obtain ⟨front, start, whole, number, -, -⟩ := frame.lines_eq_closing
    rw [whole, show frame.bounds.closing.line = front.length from number.symm,
      getElem?_withCarry_append] at found
    obtain ⟨starts, rfl⟩ := Prod.mk.inj (Option.some.inj found)
    have declared : Code.declares other (.code, start ++ '}' :: frame.after) = true :=
      declares_iff.2 ⟨rfl, signs_after_brace .closing start signs, plain⟩
    have above : front.length < second.above.length := number ▸ precedes
    rw [whole, lines] at same
    rcases append_cons_cases same.symm with ⟨more, shorter, -⟩ | ⟨more, longer, -⟩
    · rw [shorter, List.length_append] at above
      omega
    · have silent := otherHolds.clear.silent (.code, start ++ '}' :: frame.after) <| by
        rw [longer, withCarry_append, starts]
        exact List.mem_append_right _ List.mem_cons_self
      rw [declared] at silent
      cases silent
  · have behind : afterBrace frame.lines frame.bounds.closing = frame.after :=
      frame.afterBrace_closing
    rw [behind] at unsigned
    rw [← Procedure.isDeclaredIn_iff, unsigned] at signs
    cases signs

end Frame

/-- A closed body for one procedure of a file, with no line that is signed for the other one and
no such signature behind the closing brace, should the other procedure stand below. -/
structure Fitting (procedure other : Procedure) (lines : List Text) (bounds second : Bounds)
    (body : Text) : Prop where
  located : locate? procedure lines = some bounds
  before : bounds.SignedBefore procedure lines
  closed : ClosedLines (Text.lines body)
  unsigned : ∀ line ∈ Text.lines body, other.isDeclaredIn line = false
  clear : bounds.Precedes second → bounds.ClosesClear other lines

namespace Fitting

variable {body otherBody : Text}

theorem holds_filled (fits : Fitting procedure other frame.lines frame.bounds second.bounds body)
    (holds : frame.Holds procedure) : (frame.filled body).Holds procedure :=
  holds.filled (Frame.signed_of_signedBefore fits.before) (closed_iff.2 fits.closed)

/-- What is written above the other procedure does not declare it. -/
theorem silent (fits : Fitting procedure other frame.lines frame.bounds second.bounds body)
    (holds : frame.Holds procedure) (otherHolds : second.Holds other)
    (same : frame.lines = second.lines) (precedes : frame.bounds.Precedes second.bounds) :
    ∀ pair ∈ withCarry .code (frame.filled body).region, declares other pair = false := by
  have above := holds.silent_above otherHolds same precedes
  have behind := Frame.not_signs_after otherHolds same precedes (fits.clear precedes)
  exact Frame.silent_filled above fits.unsigned behind

theorem extract_replace (fits : Fitting procedure other frame.lines frame.bounds second.bounds body)
    (holds : frame.Holds procedure) (otherHolds : second.Holds other)
    (same : frame.lines = second.lines) (apart : frame.bounds.Apart second.bounds) :
    (extract other (replace procedure frame.lines body)).text =
        (extract other frame.lines).text ∧
      (extract other (replace procedure frame.lines body)).indent =
        (extract other frame.lines).indent := by
  obtain ⟨above, below, moved, split, -⟩ := holds.exists_filled_of_silent otherHolds same apart
    (fits.holds_filled holds) (fits.silent holds otherHolds same)
  rw [replace_lines holds, split, same]
  exact extract_moved otherHolds moved

end Fitting

/-- Fitting bodies of two procedures are written in either order, and each leaves what is read from
the other procedure as it is. -/
theorem replace_commutes {lines : List Text} {bounds otherBounds : Bounds} {body otherBody : Text}
    (fits : Fitting procedure other lines bounds otherBounds body)
    (otherFits : Fitting other procedure lines otherBounds bounds otherBody)
    (apart : bounds.Apart otherBounds) :
    replace other (replace procedure lines body) otherBody =
        replace procedure (replace other lines otherBody) body ∧
      ((extract other (replace procedure lines body)).text = (extract other lines).text ∧
        (extract other (replace procedure lines body)).indent = (extract other lines).indent) ∧
      ((extract procedure (replace other lines otherBody)).text = (extract procedure lines).text ∧
        (extract procedure (replace other lines otherBody)).indent =
          (extract procedure lines).indent) := by
  obtain ⟨frame, holds, rfl, rfl⟩ := locate?_eq_some_iff.1 fits.located
  obtain ⟨second, otherHolds, same, rfl⟩ := locate?_eq_some_iff.1 otherFits.located
  refine ⟨?_, fits.extract_replace holds otherHolds same apart, ?_⟩
  · rw [same] at otherFits
    exact replace_comm holds otherHolds same apart body otherBody (fits.holds_filled holds)
      (otherFits.holds_filled otherHolds) (fits.silent holds otherHolds same)
      (otherFits.silent otherHolds holds same.symm)
  · rw [same] at otherFits ⊢
    exact otherFits.extract_replace otherHolds holds same.symm apart.symm

namespace Sample

/-- Down stands above Up and is closed on a line that starts in a string. -/
def reversed : List Text := [
  "class A \x7b".toList,
  "    void Down(M m)".toList,
  "    \x7b".toList,
  "        m.Sql(@\"".toList,
  "    \x7d\"); \x7d // void".toList,
  "  void Up(M m) \x7b".toList,
  "      m.Run(); \x7d".toList,
  "\x7d".toList]

/-- Up is closed on a line that starts in a string and declares Down behind the brace. -/
def nested : List Text := [
  "class A \x7b".toList,
  "    void Up(M m) \x7b".toList,
  "        m.Run(@\"".toList,
  "        \"); \x7d void Down(M m) \x7b m.Inner(); \x7d".toList,
  "    class B \x7b".toList,
  "        void Down(M m) \x7b m.Close(); \x7d".toList,
  "    \x7d".toList,
  "\x7d".toList]

def upBody : Text := "m.A();".toList

def downBody : Text := "m.B();".toList

end Sample

theorem replace_commutes_reversed :
    Fitting .up .down Sample.reversed ⟨5, ⟨5, 15⟩, ⟨6, 15⟩⟩ ⟨1, ⟨2, 4⟩, ⟨4, 9⟩⟩
        Sample.hostileBody ∧
      Fitting .down .up Sample.reversed ⟨1, ⟨2, 4⟩, ⟨4, 9⟩⟩ ⟨5, ⟨5, 15⟩, ⟨6, 15⟩⟩
        Sample.downBody ∧
      replace .down (replace .up Sample.reversed Sample.hostileBody) Sample.downBody =
        replace .up (replace .down Sample.reversed Sample.downBody) Sample.hostileBody ∧
      (extract .up (replace .down Sample.reversed Sample.downBody)).text = "m.Run();".toList := by
  have fits : Fitting .up .down Sample.reversed ⟨5, ⟨5, 15⟩, ⟨6, 15⟩⟩ ⟨1, ⟨2, 4⟩, ⟨4, 9⟩⟩
      Sample.hostileBody :=
    ⟨by decide, Or.inr ⟨2, 10, by decide, by decide⟩, by decide, by decide,
      fun precedes => absurd precedes (by decide)⟩
  have otherFits : Fitting .down .up Sample.reversed ⟨1, ⟨2, 4⟩, ⟨4, 9⟩⟩ ⟨5, ⟨5, 15⟩, ⟨6, 15⟩⟩
      Sample.downBody :=
    ⟨by decide, Or.inl (by decide), by decide, by decide, fun _ => Or.inr (by decide)⟩
  obtain ⟨commutes, -, text, -⟩ := replace_commutes fits otherFits (by decide)
  exact ⟨fits, otherFits, commutes, text.trans (by decide)⟩

/-- A declaration that comes to light behind the closing brace is the one that is found next. -/
theorem declaration_behind_brace_found :
    ∃ up down : Bounds, locate? .up Sample.nested = some up ∧
      locate? .down Sample.nested = some down ∧ up.SignedBefore .up Sample.nested ∧
      down.SignedBefore .down Sample.nested ∧ up.Apart down ∧
      ClosedLines (Text.lines Sample.upBody) ∧ ClosedLines (Text.lines Sample.downBody) ∧
      (∀ line ∈ Text.lines Sample.upBody, Procedure.isDeclaredIn .down line = false) ∧
      (∀ line ∈ Text.lines Sample.downBody, Procedure.isDeclaredIn .up line = false) ∧
      replace .down (replace .up Sample.nested Sample.upBody) Sample.downBody ≠
        replace .up (replace .down Sample.nested Sample.downBody) Sample.upBody ∧
      (extract .down (replace .up Sample.nested Sample.upBody)).text = "m.Inner();".toList ∧
      (extract .down Sample.nested).text = "m.Close();".toList := by
  refine ⟨⟨1, ⟨1, 17⟩, ⟨3, 12⟩⟩, ⟨5, ⟨5, 23⟩, ⟨5, 36⟩⟩, by decide, by decide, Or.inr ⟨4, 12, ?_, ?_⟩,
    Or.inr ⟨8, 18, ?_, ?_⟩, by decide, by decide, by decide, by decide, by decide, by decide,
    by decide, by decide⟩ <;> decide

end MigrationSquash.Code
