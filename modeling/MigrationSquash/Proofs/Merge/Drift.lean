import MigrationSquash.Proofs.Merge.Literals
import MigrationSquash.Proofs.Region.Commuting
import MigrationSquash.Proofs.Scan.Dedent

/-!
# Bodies do not drift

A body is put into a procedure, which moves it in, and read from it, which trims it; then it is
dedented, and wrapped into a block, which moves it in by one step.  Main statement: dedenting undoes
moving in, so that however often this is done, a body stands as many steps further in as there are
blocks around it, with the lines that it had.
-/

set_option autoImplicit false

namespace MigrationSquash

open Code (Bare Carry Closed Mode dedentBody extract hangingBlock indentBlock indentLine locate?
  replace scanLine withCarry)
open Text (joinLines)

/-- A procedure into which a body is put and from which it is read, and the migration that the block
around the body names. -/
structure Round where
  id : MigrationId
  procedure : Procedure
  lines : List Text

namespace Round

variable (round : Round) (body : Text)

def region : Code.Region :=
  extract round.procedure (replace round.procedure round.lines body)

def dedented : List Text := dedentBody (round.region body).text (round.region body).indent

def wrapped : Text := (Block.wrap round.id (round.region body)).text

/-- The procedure is there, its signature ends before the opening brace, and the name of the
migration is one line. -/
structure Sound : Prop where
  located : ∃ bounds, locate? round.procedure round.lines = some bounds ∧
    bounds.SignedBefore round.procedure round.lines
  id : '\n' ∉ round.id.toText ∧ '\r' ∉ round.id.toText

variable {round body}

/-- What is read is the body that was put in, with its lines but the first one moved in. -/
theorem Sound.region_eq (sound : round.Sound) (bare : Bare body) (closed : Closed body) :
    ∃ indent : Text, (∀ c ∈ indent, Text.isIndent c = true) ∧
      (round.region body).text = joinLines (hangingBlock body indent) ∧
      (body ≠ [] → (round.region body).indent = some indent.length) := by
  obtain ⟨bounds, located, before⟩ := sound.located
  obtain ⟨frame, holds, lines, rfl⟩ := Code.locate?_eq_some_iff.1 located
  rw [lines] at before
  have filled : (frame.filled body).Holds round.procedure :=
    holds.filled (Code.Frame.signed_of_signedBefore before) closed
  have indents : ∀ c ∈ frame.bodyIndent, Text.isIndent c = true := by
    intro c member
    rcases List.mem_append.1 member with own | step
    · exact List.mem_takeWhile_imp own
    · exact Text.isIndent_of_mem_indentStep c step
  refine ⟨frame.bodyIndent, indents, ?_, fun nonempty => ?_⟩
  · rw [region, lines, Code.replace_lines holds, Code.extract_lines filled,
      ← bare.trim_indentBlock indents]
    exact Code.trim_joinLines_enclosed (Text.allBlank_indentation _) _
  · rw [region, lines, Code.replace_lines holds, Code.indent_extract_lines filled]
    exact bare.indentation_indentBlock nonempty indents

/-- What was put in is read and moved out again. -/
theorem Sound.dedented_eq (sound : round.Sound) (bare : Bare body) (closed : Closed body) :
    round.dedented body = indentBlock body [] := by
  obtain ⟨indent, indents, text, first⟩ := sound.region_eq bare closed
  by_cases nonempty : body = []
  · rw [dedented, text, nonempty]
    rfl
  · rw [dedented, text, first nonempty, bare.dedentBody_hangingBlock indents]

/-- The body stands in its block as it was. -/
theorem Sound.bodyLines_eq (sound : round.Sound) (bare : Bare body) (closed : Closed body) :
    Block.bodyLines (round.region body) = indentBlock body Text.indentStep := by
  have moved := sound.dedented_eq bare closed
  rw [dedented] at moved
  rw [Block.bodyLines, moved, bare.indentBlock_joinLines]

theorem Sound.closed_region (sound : round.Sound) (bare : Bare body) (closed : Closed body) :
    Closed (round.region body).text := by
  obtain ⟨indent, indents, text, -⟩ := sound.region_eq bare closed
  have indentBlank : Text.AllBlank indent := fun c member =>
    Text.isBlank_of_isIndent (indents c member)
  have unbroken : Text.Unbroken indent := fun member => absurd (indents _ member) (by decide)
  rw [text, ← bare.trim_indentBlock indents]
  exact (closed.joinLines_indentBlock indentBlank unbroken).trim

theorem Sound.closed_wrapped (sound : round.Sound) (bare : Bare body) (closed : Closed body) :
    Closed (round.wrapped body) :=
  Block.closed_wrap sound.id.1 (sound.closed_region bare closed)

theorem Sound.bare_wrapped (sound : round.Sound) (bare : Bare body) (closed : Closed body) :
    Bare (round.wrapped body) := by
  obtain ⟨indent, indents, text, -⟩ := sound.region_eq bare closed
  have noReturn : '\r' ∉ (round.region body).text := by
    rw [text]
    exact (bare.joinLines_hangingBlock indents).noReturn
  refine ⟨fun member => ?_, fun c first => ?_, fun d last => ?_⟩
  · rcases Text.mem_joinLines member with same | ⟨line, inside, inLine⟩
    · cases same
    · exact Block.not_mem_lines (Or.inr rfl) sound.id.2 (Block.noReturn_bodyLines noReturn)
        line inside inLine
  · obtain rfl := Option.some.inj first
    decide
  · have brace : (round.wrapped body).getLast? = some '\x7d' :=
      (Text.getLast?_joinLines_iff (by decide) (['\x7b'] :: _ :: _) ['\x7d']).2 rfl
    obtain rfl := Option.some.inj (brace.symm.trans last)
    decide

/-- The lines of the block around a body, moved in. -/
theorem Sound.indentBlock_wrapped (sound : round.Sound) (bare : Bare body) (closed : Closed body)
    (indent : Text) :
    indentBlock (round.wrapped body) indent =
      (indent ++ ['{']) :: (indent ++ Text.trimEnd (Text.indentStep ++ provenance round.id)) ::
        indentBlock body (indent ++ Text.indentStep) ++ [indent ++ ['}']] := by
  have lines : Text.lines (round.wrapped body) =
      ['{'] :: (Text.indentStep ++ provenance round.id) ::
        indentBlock body Text.indentStep ++ [['}']] := by
    rw [(sound.bare_wrapped bare closed).lines_eq (by rintro ⟨⟩), wrapped, Block.text_wrap,
      Text.pieces_joinLines (by simp [Block.lines]) (Block.unbroken_lines sound.id.1), Block.lines,
      sound.bodyLines_eq bare closed]
  have brace : (scanLine ['{'] .code).carry = .code := rfl
  have comment : (scanLine (Text.indentStep ++ provenance round.id) .code).carry = .code := by
    rw [Code.scanLine_eq_scan]
    exact (scan_provenance round.id).2
  have ends : (Carry.code.mode.runLines (indentBlock body Text.indentStep)).carry = .code := by
    rw [← sound.bodyLines_eq bare closed]
    exact congrArg Mode.carry (Block.runLines_bodyLines (sound.closed_region bare closed))
  have opening : indentLine indent (.code, ['{']) = indent ++ ['{'] := rfl
  have named : indentLine indent (.code, Text.indentStep ++ provenance round.id) =
      indent ++ Text.trimEnd (Text.indentStep ++ provenance round.id) := rfl
  have closing : (withCarry .code [['}']]).map (indentLine indent) = [indent ++ ['}']] := rfl
  rw [indentBlock, lines, List.cons_append, List.cons_append, withCarry, brace, withCarry, comment,
    Code.withCarry_append, ends, List.map_cons, List.map_cons, List.map_append, opening, named,
    closing, Code.map_indentLine_indentBlock Text.allBlank_indentStep, List.cons_append,
    List.cons_append]

end Round

/-- The lines of a body in blocks that name migrations, the outermost one first. -/
def nestedLines (body : Text) : List MigrationId → Text → List Text
  | [], indent => indentBlock body indent
  | id :: inner, indent =>
      (indent ++ ['{']) :: (indent ++ Text.trimEnd (Text.indentStep ++ provenance id)) ::
        nestedLines body inner (indent ++ Text.indentStep) ++ [indent ++ ['}']]

/-- Blocks around a body move it in by one step each. -/
theorem indentBlock_rounds {s : Text} (bare : Bare s) (closed : Closed s) {rounds : List Round}
    (sound : ∀ round ∈ rounds, round.Sound) :
    Bare (rounds.foldr Round.wrapped s) ∧ Closed (rounds.foldr Round.wrapped s) ∧
      ∀ indent, indentBlock (rounds.foldr Round.wrapped s) indent =
        nestedLines s (rounds.map Round.id) indent := by
  induction rounds with
  | nil => exact ⟨bare, closed, fun _ => rfl⟩
  | cons round inner ih =>
      obtain ⟨bareInner, closedInner, lines⟩ := ih fun other member =>
        sound other (List.mem_cons_of_mem round member)
      have outer := sound round List.mem_cons_self
      refine ⟨outer.bare_wrapped bareInner closedInner, outer.closed_wrapped bareInner closedInner,
        fun indent => ?_⟩
      rw [List.foldr_cons, outer.indentBlock_wrapped bareInner closedInner, lines]
      rfl

/-- A body after it was moved in, trimmed and moved out. -/
def moved (indent body : Text) : Text :=
  joinLines (dedentBody (Text.trim (joinLines (indentBlock body indent))) (some indent.length))

theorem indentBlock_moved {s : Text} (bare : Bare s) {indents : List Text}
    (indent : ∀ indent ∈ indents, ∀ c ∈ indent, Text.isIndent c = true) :
    Bare (indents.foldr moved s) ∧
      ∀ indent, indentBlock (indents.foldr moved s) indent = indentBlock s indent := by
  induction indents with
  | nil => exact ⟨bare, fun _ => rfl⟩
  | cons first rest ih =>
      obtain ⟨bareRest, lines⟩ := ih fun other member =>
        indent other (List.mem_cons_of_mem first member)
      have firstIndents := indent first List.mem_cons_self
      have bareOut := bareRest.joinLines_hangingBlock (List.forall_mem_nil _)
      rw [Code.hangingBlock_nil] at bareOut
      have again : moved first (rest.foldr moved s) =
          joinLines (indentBlock (rest.foldr moved s) []) := by
        rw [moved, bareRest.trim_indentBlock firstIndents,
          bareRest.dedentBody_hangingBlock firstIndents]
      rw [List.foldr_cons, again]
      exact ⟨bareOut, fun other => (bareRest.indentBlock_joinLines other).trans (lines other)⟩

/-- Dedenting undoes moving in.  A body that is moved in and out any number of times is moved like
the old one, and one that is put into procedures, read from them and wrapped into blocks stands in
the blocks with the lines that it had, moved in by one step for each of them. -/
theorem dedent_undoes_indent {s : Text} (noReturn : '\r' ∉ s) (trimmed : Text.trim s = s) :
    (∀ indent : Text, (∀ c ∈ indent, Text.isIndent c = true) →
      dedentBody (Text.trim (joinLines (indentBlock s indent))) (some indent.length) =
        indentBlock s []) ∧
    (∀ indents : List Text, (∀ indent ∈ indents, ∀ c ∈ indent, Text.isIndent c = true) →
      ∀ indent, indentBlock (indents.foldr moved s) indent = indentBlock s indent) ∧
    (Code.ClosedLines (Text.lines s) →
      ∀ rounds : List Round, (∀ round ∈ rounds, round.Sound) → ∀ last : Round, last.Sound →
        last.dedented (rounds.foldr Round.wrapped s) = nestedLines s (rounds.map Round.id) []) := by
  have bare := Code.bare_of_trim noReturn trimmed
  refine ⟨fun indent indents => ?_, fun indents all => (indentBlock_moved bare all).2,
    fun closed rounds sound last lastSound => ?_⟩
  · rw [bare.trim_indentBlock indents, bare.dedentBody_hangingBlock indents]
  · obtain ⟨bareOut, closedOut, lines⟩ := indentBlock_rounds bare (Code.closed_iff.2 closed) sound
    rw [lastSound.dedented_eq bareOut closedOut, lines]

namespace Sample

/-- A body with a string over three lines, an empty line, and lines that are indented. -/
def uneven : Text := "m.Sql(@\"\n  SELECT 1;\t\n\");\n\n\tif (b) \n\t  c();".toList

/-- A block that is opened behind a comment and has something behind it. -/
def crowdedRound : Round where
  id := ⟨"20240101000000".toList, "AddUsers".toList⟩
  procedure := .up
  lines := Code.Sample.crowded

theorem sound_crowdedRound : crowdedRound.Sound :=
  ⟨⟨⟨1, ⟨1, 23⟩, ⟨2, 2⟩⟩, by decide, Or.inr ⟨2, 10, by decide, by decide⟩⟩, by decide⟩

end Sample

theorem dedent_undoes_indent_sample :
    dedentBody (Text.trim (joinLines (indentBlock Sample.uneven "\t  ".toList))) (some 3) =
        indentBlock Sample.uneven [] ∧
      Sample.crowdedRound.dedented (Sample.crowdedRound.wrapped Sample.uneven) = [
        "\x7b".toList,
        "    // Squashed from 20240101000000_AddUsers".toList,
        "    m.Sql(@\"".toList,
        "  SELECT 1;\t".toList,
        "\");".toList,
        [],
        "    \tif (b)".toList,
        "    \t  c();".toList,
        "\x7d".toList] := by
  have closed : Code.ClosedLines (Text.lines Sample.uneven) := by decide
  have sound := Sample.sound_crowdedRound
  obtain ⟨once, -, often⟩ := dedent_undoes_indent (s := Sample.uneven) (by decide) (by decide)
  refine ⟨once "\t  ".toList (List.all_eq_true.1 (by decide)), ?_⟩
  exact (often closed [Sample.crowdedRound] (by simp [sound]) Sample.crowdedRound sound).trans
    (by decide)

end MigrationSquash
