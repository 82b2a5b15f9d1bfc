import MigrationSquash.Proofs.Region.Located
import MigrationSquash.Proofs.Region.Ranges

/-!
# Whose brace is taken

The search for the brace that opens a body starts where the declaring line starts, not where the
signature does.  Main statement: the body opens at the first brace behind the signature exactly if
no block is opened on that line before the signature; otherwise the brace that is taken stands
before the signature, be it that of a block around the procedure or of another procedure.
-/

set_option autoImplicit false

namespace MigrationSquash

namespace Procedure

variable {procedure : Procedure} {kind : Code.BraceKind}

/-- A signature is not cut by a brace. -/
theorem IsSignature.brace_not_mem {signature : Text} (signs : procedure.IsSignature signature) :
    kind.char ∉ signature := by
  obtain ⟨gap, space, -, gapBlank, spaceBlank, rfl⟩ := signs
  have visible : Text.isBlank kind.char = false := by cases kind <;> decide
  have noGap := Code.not_mem_of_allBlank gapBlank visible
  have noSpace := Code.not_mem_of_allBlank spaceBlank visible
  have noVoid : kind.char ∉ "void".toList := by cases kind <;> decide
  have noName : kind.char ∉ procedure.name := by cases kind <;> cases procedure <;> decide
  have noParenthesis : kind.char ∉ ['('] := by cases kind <;> decide
  simp only [List.mem_append, not_or]
  exact ⟨noVoid, noGap, noName, noSpace, noParenthesis⟩

/-- A brace of a line stands before the signature in it or behind it. -/
theorem brace_outside_signature {line left right : Text} {start stop : Nat}
    (found : procedure.signature? line = some (start, stop))
    (cut : line = left ++ kind.char :: right) : Text.width left < start ∨ stop ≤ Text.width left := by
  obtain ⟨before, signature, after, rfl, -, signs, rfl, rfl⟩ := signatureFrom?_spec found
  rw [Nat.zero_add, Nat.zero_add]
  rcases append_cons_cases cut with ⟨more, rfl, behind⟩ | ⟨more, rfl, -⟩
  · -- the brace stands in what follows `before`
    rcases append_cons_cases behind with ⟨others, rfl, -⟩ | ⟨others, rfl, -⟩
    · right
      rw [← List.append_assoc, Text.width_append _ others]
      exact Nat.le_add_right _ _
    · exact absurd (List.mem_append_right _ List.mem_cons_self) signs.brace_not_mem
  · left
    have positive := kind.char.utf8Size_pos
    rw [Text.width_append, Text.width_cons]
    omega

end Procedure

namespace Code

variable {procedure : Procedure}

/-- Where the signature on the declaring line of a procedure ends. -/
def Bounds.signatureEnd (procedure : Procedure) (lines : List Text) (bounds : Bounds) : Spot :=
  ⟨bounds.declaration,
    ((procedure.signature? (lineAt lines bounds.declaration)).map (·.2)).getD 0⟩

/-- The body opens at the first structural brace at or behind the end of the signature. -/
structure Bounds.OpensBehind (procedure : Procedure) (lines : List Text) (bounds : Bounds) :
    Prop where
  behind : ¬ bounds.opening.Before (bounds.signatureEnd procedure lines)
  first : ∀ place ∈ structural lines, place.2 = .opening →
    ¬ place.1.Before (bounds.signatureEnd procedure lines) → ¬ place.1.Before bounds.opening

theorem standsAt_of_mem_structural {lines : List Text} {spot : Spot} {kind : BraceKind}
    (member : (spot, kind) ∈ structural lines) : StandsAt kind lines spot := by
  rw [structural_eq_spots] at member
  obtain ⟨left, right, found⟩ := List.append_of_mem member
  obtain ⟨above, before, after, below, rfl, -, onLine, place, -⟩ :=
    Mode.exists_of_spots_eq_append found
  obtain ⟨line, offset⟩ := spot
  simp only [ite_self, Nat.zero_add] at onLine place
  rw [onLine, place]
  exact standsAt_length kind above before after below

/-- No structural brace stands inside of the signature. -/
theorem before_signatureEnd_iff {lines : List Text} {bounds : Bounds} {spot : Spot}
    {kind : BraceKind} (member : (spot, kind) ∈ structural lines) :
    spot.Before (bounds.signatureEnd procedure lines) ↔
      spot.Before (bounds.signature procedure lines) := by
  unfold Spot.Before Bounds.signatureEnd Bounds.signature
  cases found : procedure.signature? (lineAt lines bounds.declaration) with
  | none => exact Iff.rfl
  | some ends =>
      obtain ⟨start, stop⟩ := ends
      have span : start ≤ stop := by
        obtain ⟨before, signature, -, -, -, -, rfl, rfl⟩ := Procedure.signatureFrom?_spec found
        rw [Text.width_append]
        omega
      have outside : spot.line = bounds.declaration → spot.offset < start ∨ stop ≤ spot.offset := by
        intro onLine
        have stands := standsAt_of_mem_structural member
        rw [← stands.offset]
        exact Procedure.brace_outside_signature (onLine ▸ found) stands.line
      simp only [Option.map_some, Option.getD_some]
      omega

/-- The brace that opens the body is that of the procedure exactly if no block is opened on the
declaring line before the signature.  If one is, then the brace stands before the signature. -/
theorem opensBehind_iff {lines : List Text} {bounds : Bounds}
    (located : locate? procedure lines = some bounds) :
    (bounds.OpensBehind procedure lines ↔
        ∀ place ∈ structural lines, place.2 = .opening → place.1.line = bounds.declaration →
          ¬ place.1.Before (bounds.signature procedure lines)) ∧
      (¬ bounds.OpensBehind procedure lines ↔
        bounds.opening.Before (bounds.signature procedure lines)) := by
  obtain ⟨frame, holds, rfl, rfl⟩ := locate?_eq_some_iff.1 located
  obtain ⟨-, opens, head, first⟩ := holds.delimits.opens
  have inside : frame.bounds.opening.Before (frame.bounds.signatureEnd procedure frame.lines) ↔
      frame.bounds.opening.Before (frame.bounds.signature procedure frame.lines) :=
    before_signatureEnd_iff opens
  have least : ∀ place ∈ structural frame.lines, place.2 = .opening →
      frame.bounds.declaration ≤ place.1.line → ¬ place.1.Before frame.bounds.opening := by
    rintro ⟨spot, kind⟩ member rfl below before
    rcases first spot member below with rfl | after
    · exact Spot.Before.irrefl _ before
    · exact before.asymm after
  have behind_iff : frame.bounds.OpensBehind procedure frame.lines ↔
      ¬ frame.bounds.opening.Before (frame.bounds.signature procedure frame.lines) := by
    rw [← inside]
    refine ⟨fun opensBehind => opensBehind.behind, fun behind => ⟨behind, ?_⟩⟩
    intro place member isOpening notBefore
    refine least place member isOpening (Nat.not_lt.1 fun above => notBefore (Or.inl above))
  refine ⟨?_, by rw [behind_iff, not_not]⟩
  rw [behind_iff]
  constructor
  · rintro behind ⟨spot, kind⟩ member rfl onLine before
    rcases first spot member (Nat.le_of_eq onLine.symm) with rfl | after
    · exact behind before
    · exact behind (after.trans before)
  · intro none before
    refine none _ opens rfl ?_ before
    exact Nat.le_antisymm before.line_le head

namespace Sample

/-- Braces that open nothing, and a block that is closed, before a signature. -/
def closedBefore : List Text := [
  "class AddUsers \x7b".toList,
  "    void Down(Builder b) \x7b b.Drop();".toList,
  "    \x7d /* \x7b */ void Up(Builder b) // \x7b".toList,
  "    \x7b".toList,
  "        b.Run(); \x7d".toList,
  "\x7d".toList]

/-- Two procedures on one line. -/
def sharedLine : List Text := [
  "class A \x7b".toList,
  "    void Down(M m) \x7b m.Drop(); \x7d void Up(M m) \x7b m.Run(); \x7d".toList,
  "\x7d".toList]

end Sample

theorem opensBehind_closedBefore :
    locate? .up Sample.closedBefore = some ⟨2, ⟨3, 4⟩, ⟨4, 17⟩⟩ ∧
      Bounds.OpensBehind .up Sample.closedBefore ⟨2, ⟨3, 4⟩, ⟨4, 17⟩⟩ := by
  have located : locate? .up Sample.closedBefore = some ⟨2, ⟨3, 4⟩, ⟨4, 17⟩⟩ := by decide
  exact ⟨located, (opensBehind_iff located).1.2 (by decide)⟩

/-- The block of the procedure before is taken, and its body is what is read and replaced. -/
theorem brace_of_other_procedure_taken :
    locate? .up Sample.sharedLine = some ⟨1, ⟨1, 19⟩, ⟨1, 31⟩⟩ ∧
      ¬ Bounds.OpensBehind .up Sample.sharedLine ⟨1, ⟨1, 19⟩, ⟨1, 31⟩⟩ ∧
      (extract .up Sample.sharedLine).text = "m.Drop();".toList ∧
      extract .up Sample.sharedLine = extract .down Sample.sharedLine ∧
      replace .up Sample.sharedLine "x();".toList = [
        "class A \x7b".toList,
        "    void Down(M m) \x7b".toList,
        "        x();".toList,
        "    \x7d void Up(M m) \x7b m.Run(); \x7d".toList,
        "\x7d".toList] := by
  refine ⟨by decide, fun opensBehind => opensBehind.behind (by decide), by decide, by decide,
    by decide⟩

end Code

end MigrationSquash
