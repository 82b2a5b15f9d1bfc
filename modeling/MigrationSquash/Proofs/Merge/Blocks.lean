import MigrationSquash.Migration.Merge
import MigrationSquash.Proofs.Region.Silent

/-!
# Blocks of merged migrations

A body that was put into a block of its own is closed if the body was, and declares what the
body declares: the comment on top of the block is not read.  The same holds for blocks below
each other.
-/

set_option autoImplicit false

namespace MigrationSquash

open Code (Closed Silent Mode indentBlock dedentBody declares)
open Text (joinLines Unbroken)

/-- What holds of texts below each other, with an empty line between each two of them. -/
theorem Text.join_emptyLine_induction {holds : Text → Prop} (nil : holds [])
    (append : ∀ s t, holds s → holds t → holds (s ++ '\n' :: t)) {texts : List Text}
    (all : ∀ s ∈ texts, holds s) : holds (Text.join ['\n', '\n'] texts) := by
  induction texts with
  | nil => exact nil
  | cons s rest ih =>
      have first := all s List.mem_cons_self
      have later := ih fun t member => all t (List.mem_cons_of_mem s member)
      cases rest with
      | nil => exact first
      | cons next others =>
          have below := append s _ first (append [] _ nil later)
          simpa [Text.join] using below

theorem Code.Mode.lineComment_spec (s : Text) :
    Mode.lineComment.kinds s = [] ∧ (Mode.lineComment.run s).carry = .code := by
  have scanned : Mode.lineComment.scan 0 s = ⟨[], .code⟩ := Mode.scan_lineComment
  constructor
  · rw [← Mode.map_kind_braces .lineComment 0]
    exact congrArg (fun scan => scan.braces.map (·.kind)) scanned
  · exact congrArg LineScan.carry scanned

variable {id : MigrationId}

theorem scan_provenance (id : MigrationId) :
    Mode.code.kinds (Text.indentStep ++ provenance id) = [] ∧
      (Mode.code.run (Text.indentStep ++ provenance id)).carry = .code := by
  have start : Text.indentStep ++ provenance id =
      "    //".toList ++ (" Squashed from ".toList ++ id.toText) := rfl
  have mode : Mode.code.run "    //".toList = .lineComment := by decide
  have kinds : Mode.code.kinds "    //".toList = [] := by decide
  obtain ⟨later, ends⟩ := Mode.lineComment_spec (" Squashed from ".toList ++ id.toText)
  rw [start, Mode.kinds_append, Mode.run_append, mode, kinds, later, ends]
  exact ⟨rfl, rfl⟩

theorem declares_provenance (procedure : Procedure) (id : MigrationId) :
    declares procedure (.code, Text.indentStep ++ provenance id) = false := by
  have commented : Code.isCommented (Text.indentStep ++ provenance id) = true := by
    have start : Text.trimStart (Text.indentStep ++ provenance id) =
        ['/', '/'] ++ (" Squashed from ".toList ++ id.toText) :=
      Text.trimStart_append_of_not_isBlank Text.allBlank_indentStep (by decide) _
    have marked (rest : Text) : Text.startsWith ['/', '/'] (['/', '/'] ++ rest) = true :=
      Text.startsWith_iff.2 ⟨rest, rfl⟩
    rw [Code.isCommented, start, marked, Bool.true_or]
  cases declared : declares procedure (.code, Text.indentStep ++ provenance id) with
  | false => rfl
  | true =>
      obtain ⟨-, -, notCommented⟩ := Code.declares_iff.1 declared
      rw [commented] at notCommented
      cases notCommented

/-- A line break that the identity does not hold is not in the comment either. -/
theorem not_mem_provenance {c : Char} (breaks : c = '\n' ∨ c = '\r') (absent : c ∉ id.toText) :
    c ∉ Text.indentStep ++ provenance id := by
  have step : c ∉ Text.indentStep := by rcases breaks with rfl | rfl <;> decide
  have comment : c ∉ "// Squashed from ".toList := by rcases breaks with rfl | rfl <;> decide
  intro member
  rcases List.mem_append.1 member with inStep | inComment
  · exact step inStep
  · exact (List.mem_append.1 inComment).elim comment absent

namespace Block

/-- The body of a block as it stands in it. -/
def bodyLines (region : Code.Region) : List Text :=
  indentBlock (joinLines (dedentBody region.text region.indent)) Text.indentStep

/-- The lines of a block. -/
def lines (id : MigrationId) (region : Code.Region) : List Text :=
  ['{'] :: (Text.indentStep ++ provenance id) :: bodyLines region ++ [['}']]

theorem text_wrap (id : MigrationId) (region : Code.Region) :
    (Block.wrap id region).text = joinLines (lines id region) := rfl

variable {region : Code.Region}

theorem not_mem_lines {c : Char} (breaks : c = '\n' ∨ c = '\r') (absent : c ∉ id.toText)
    (absentBody : ∀ line ∈ bodyLines region, c ∉ line) : ∀ line ∈ lines id region, c ∉ line := by
  intro line member
  simp only [lines, List.mem_append, List.mem_cons, List.not_mem_nil, or_false] at member
  rcases member with (rfl | rfl | inBody) | rfl
  · rcases breaks with rfl | rfl <;> decide
  · exact not_mem_provenance breaks absent
  · exact absentBody line inBody
  · rcases breaks with rfl | rfl <;> decide

theorem unbroken_indentStep : Unbroken Text.indentStep := by
  unfold Unbroken
  decide

theorem unbroken_lines (oneLine : '\n' ∉ id.toText) : ∀ line ∈ lines id region, Unbroken line :=
  not_mem_lines (Or.inl rfl) oneLine (Code.unbroken_indentBlock unbroken_indentStep _)

theorem closed_dedented (closed : Closed region.text) :
    Closed (joinLines (dedentBody region.text region.indent)) :=
  closed.joinLines_dedentBody region.indent

theorem closed_bodyLines (closed : Closed region.text) :
    Closed (joinLines (bodyLines region)) :=
  (closed_dedented closed).joinLines_indentBlock Text.allBlank_indentStep unbroken_indentStep

theorem runLines_bodyLines (closed : Closed region.text) :
    Mode.code.runLines (bodyLines region) = .code := by
  have unbroken : ∀ line ∈ bodyLines region, Unbroken line :=
    Code.unbroken_indentBlock unbroken_indentStep _
  exact Mode.runLines_eq_code
    ((Mode.code.carry_read_joinLines unbroken).symm.trans (closed_bodyLines closed).ends)

/-- Between the braces of a block every other brace is matched, and nothing is left open. -/
theorem balanced_inner (id : MigrationId) (closed : Closed region.text) :
    Code.Balanced (Mode.code.kindsOfLines ((Text.indentStep ++ provenance id) :: bodyLines region)) ∧
      Mode.code.runLines ((Text.indentStep ++ provenance id) :: bodyLines region) = .code := by
  have body := closed_bodyLines closed
  have unbroken : ∀ line ∈ bodyLines region, Unbroken line :=
    Code.unbroken_indentBlock unbroken_indentStep _
  obtain ⟨commentKinds, commentEnds⟩ := scan_provenance id
  have comment : (Mode.code.run (Text.indentStep ++ provenance id)).carry.mode = .code := by
    rw [commentEnds]
    rfl
  rw [Mode.kindsOfLines_cons, Mode.runLines_cons, commentKinds, comment, List.nil_append]
  exact ⟨Mode.code.kindsOfText_joinLines unbroken ▸ body.balanced, runLines_bodyLines closed⟩

/-- The body of a block, moved out and in again, is as closed as it was. -/
theorem closed_wrap (oneLine : '\n' ∉ id.toText) (closed : Closed region.text) :
    Closed (Block.wrap id region).text := by
  obtain ⟨balanced, ends⟩ := balanced_inner id closed
  have opened : (Mode.code.run ['{']).carry.mode = .code := rfl
  have openedBrace : Mode.code.kinds ['{'] = [.opening] := rfl
  rw [text_wrap]
  refine .of_lines (unbroken_lines oneLine) ?_ ?_
  · rw [lines, List.cons_append, Mode.kindsOfLines_cons, Mode.kindsOfLines_append, opened, ends,
      openedBrace]
    exact balanced.block
  · rw [lines, List.cons_append, Mode.runLines_cons, Mode.runLines_append, opened, ends]
    rfl

theorem silent_wrap {procedure : Procedure} (oneLine : '\n' ∉ id.toText)
    (silent : Silent procedure region.text) : Silent procedure (Block.wrap id region).text := by
  have body : Silent procedure (joinLines (dedentBody region.text region.indent)) :=
    .of_lines (Code.unbroken_dedentBody _ _) (silent.dedentBody region.indent)
  rw [text_wrap]
  refine .of_lines (unbroken_lines oneLine) ?_
  intro line member
  simp only [lines, List.mem_append, List.mem_cons, List.not_mem_nil, or_false] at member
  rcases member with (rfl | rfl | inBody) | rfl
  · cases procedure <;> decide
  · exact declares_provenance procedure id
  · exact body.indentBlock Text.allBlank_indentStep line inBody
  · cases procedure <;> decide

end Block

end MigrationSquash
