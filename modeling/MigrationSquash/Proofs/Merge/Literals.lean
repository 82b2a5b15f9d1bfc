import MigrationSquash.Proofs.Merge.Exact
import MigrationSquash.Proofs.Scan.Verbatim

/-!
# Verbatim strings of merged bodies

A body passes four times through a pass over its lines on its way into a merged procedure.
Main statement: its verbatim strings come out as they went in, unless a line that does not
start in a verbatim string opens one and ends in blanks.
-/

set_option autoImplicit false

namespace MigrationSquash

open Code (Closed Mode Carry Frame locate? extract indentBlock dedentBody cutCount verbatims)
open Text (joinLines Unbroken)

namespace Code

/-- A line of the text opens a verbatim string and ends in blanks that belong to it. -/
def Ragged (s : Text) : Prop :=
  ∃ pair ∈ withCarry .code (Text.lines s), pair.1 ≠ .verbatim ∧
    (scanLine pair.2 pair.1).carry = .verbatim ∧ Text.trimEnd pair.2 ≠ pair.2

instance (s : Text) : Decidable (Ragged s) :=
  inferInstanceAs (Decidable (∃ pair ∈ withCarry .code (Text.lines s), pair.1 ≠ .verbatim ∧
    (scanLine pair.2 pair.1).carry = .verbatim ∧ Text.trimEnd pair.2 ≠ pair.2))

theorem cutOff_eq_nil_iff {pair : Carry × Text} :
    cutOff pair = [] ↔ ¬ (pair.1 ≠ .verbatim ∧ (scanLine pair.2 pair.1).carry = .verbatim ∧
      Text.trimEnd pair.2 ≠ pair.2) := by
  obtain ⟨carry, line⟩ := pair
  by_cases inside : carry = .verbatim
  · subst inside
    simp [cutOff]
  · rw [cutOff_eq inside]
    by_cases opens : (scanLine line carry).carry = .verbatim
    · rw [if_pos opens]
      constructor
      · rintro nothing ⟨-, -, differs⟩
        have whole := Text.trimEnd_append_drop line
        rw [nothing, List.append_nil] at whole
        exact differs whole
      · intro same
        have trimmed : Text.trimEnd line = line := by
          by_contra differs
          exact same ⟨inside, opens, differs⟩
        rw [trimmed, List.drop_length]
    · simp [opens]

theorem cutCount_eq_zero_iff (s : Text) : cutCount .code (Text.lines s) = 0 ↔ ¬ Ragged s := by
  rw [cutCount, List.length_eq_zero_iff, List.flatMap_eq_nil_iff]
  constructor
  · rintro none ⟨pair, member, ragged⟩
    exact cutOff_eq_nil_iff.1 (none pair member) ragged
  · intro smooth pair member
    exact cutOff_eq_nil_iff.2 fun ragged => smooth ⟨pair, member, ragged⟩

theorem verbatims_append_feed {s : Text} (closed : Closed s) (t : Text) :
    verbatims (s ++ '\n' :: t) = verbatims s ++ verbatims t := by
  have marked : (groups (Mode.code.quoted t)).1 = [] := groups_quoted_of_outside rfl t
  have whole : Mode.code.quoted (s ++ '\n' :: t) = Mode.code.quoted s ++ Mode.code.quoted t := by
    rw [Mode.quoted_append, Mode.quoted_feed, closed.ends]
    rfl
  rw [verbatims, verbatims, verbatims, whole, groups_append_of_marked marked]

theorem verbatims_join {texts : List Text} (closed : ∀ s ∈ texts, Closed s) :
    verbatims (Text.join ['\n', '\n'] texts) = texts.flatMap verbatims := by
  induction texts with
  | nil => rfl
  | cons s rest ih =>
      have later := ih fun t member => closed t (List.mem_cons_of_mem s member)
      cases rest with
      | nil => simp [Text.join]
      | cons next others =>
          have below := verbatims_append_feed .nil (Text.join ['\n', '\n'] (next :: others))
          have first := verbatims_append_feed (closed s List.mem_cons_self)
            ('\n' :: Text.join ['\n', '\n'] (next :: others))
          rw [List.flatMap_cons, ← later]
          simp only [Text.join, List.append_assoc, List.cons_append, List.nil_append] at first below ⊢
          rw [first, below]
          rfl

end Code

/-- Texts that pass through the passes over their lines with all their verbatim strings. -/
structure Settled (s : Text) : Prop where
  closed : Closed s
  noReturn : '\r' ∉ s
  smooth : cutCount .code (Text.pieces s) = 0

namespace Settled

theorem nil : Settled [] := ⟨.nil, List.not_mem_nil, rfl⟩

theorem append_feed {s t : Text} (first : Settled s) (second : Settled t) :
    Settled (s ++ '\n' :: t) := by
  refine ⟨first.closed.append_feed second.closed, ?_, ?_⟩
  · intro member
    rcases List.mem_append.1 member with inFirst | behind
    · exact first.noReturn inFirst
    · rcases List.mem_cons.1 behind with same | inSecond
      · cases same
      · exact second.noReturn inSecond
  · have unbroken : ∀ piece ∈ Text.pieces s, Unbroken piece := fun _ => Text.unbroken_of_mem_pieces
    have ends := Mode.code.carry_read_joinLines unbroken
    rw [Text.joinLines_pieces, first.closed.ends] at ends
    have carried : (Carry.code.mode.runLines (Text.pieces s)).carry = .code := ends.symm
    rw [Text.pieces_append_feed, Code.cutCount_append, first.smooth, carried, second.smooth]

end Settled

namespace Block

variable {id : MigrationId} {region : Code.Region}

/-- What one line without verbatim strings adds to the lines below it: nothing. -/
theorem quoted_plain_line {line : Text} (plain : Mode.code.quoted line = [])
    (ends : (Mode.code.read line).carry = .code) {rest : List Text} (nonempty : rest ≠ []) :
    Mode.code.quoted (joinLines (line :: rest)) = Mode.code.quoted (joinLines rest) := by
  cases rest with
  | nil => exact absurd rfl nonempty
  | cons next others =>
      rw [Text.joinLines_cons_cons, Mode.quoted_append, plain, Mode.quoted_feed, ends]
      rfl

theorem quoted_lineComment {s : Text} (oneLine : Unbroken s) :
    Mode.lineComment.quoted s = [] := by
  induction s with
  | nil => rfl
  | cons c rest ih =>
      have stays : Mode.lineComment.next c = .lineComment := Mode.next_of_ne _ oneLine.head
      rw [Mode.quoted, Mode.quotedAt, stays, ih oneLine.tail]
      rfl

theorem quoted_provenance (oneLine : '\n' ∉ id.toText) :
    Mode.code.quoted (Text.indentStep ++ provenance id) = [] ∧
      (Mode.code.read (Text.indentStep ++ provenance id)).carry = .code := by
  constructor
  · have start : Text.indentStep ++ provenance id =
        "    //".toList ++ (" Squashed from ".toList ++ id.toText) := rfl
    have mode : Mode.code.read "    //".toList = .lineComment := by decide
    have front : Mode.code.quoted "    //".toList = [] := by decide
    have words : '\n' ∉ " Squashed from ".toList := by decide
    have tail : Unbroken (" Squashed from ".toList ++ id.toText) :=
      fun member => (List.mem_append.1 member).elim words oneLine
    rw [start, Mode.quoted_append, front, mode, quoted_lineComment tail]
    rfl
  · rw [(Mode.code.read_unbroken (not_mem_provenance (Or.inl rfl) oneLine)).1]
    exact (scan_provenance id).2

theorem quoted_wrap (oneLine : '\n' ∉ id.toText) (closed : Closed (joinLines (bodyLines region))) :
    Mode.code.quoted (Block.wrap id region).text =
      Mode.code.quoted (joinLines (bodyLines region)) := by
  obtain ⟨comment, commentEnds⟩ := quoted_provenance oneLine
  have last : Mode.code.quoted ['}'] = [] := by decide
  rw [text_wrap, lines, List.cons_append, List.cons_append,
    quoted_plain_line (by decide) (by decide) (by simp), quoted_plain_line comment commentEnds (by simp)]
  change Mode.code.quoted (joinLines (bodyLines region ++ [['}']])) = _
  by_cases empty : bodyLines region = []
  · rw [empty]
    exact last
  · rw [Text.joinLines_append _ _ empty (by simp), Text.joinLines_singleton, Mode.quoted_append,
      Mode.quoted_feed, closed.ends]
    change _ ++ ([] ++ Mode.code.quoted ['}']) = _
    rw [last, List.append_nil, List.append_nil]

theorem noReturn_dedented (noReturn : '\r' ∉ region.text) :
    '\r' ∉ joinLines (dedentBody region.text region.indent) := by
  intro member
  rcases Text.mem_joinLines member with same | ⟨line, inside, inLine⟩
  · cases same
  · exact Code.not_mem_dedentBody region.indent
      (fun _ => Text.not_mem_of_mem_lines noReturn) line inside inLine

/-- Moving out cuts everything off; moving in finds nothing left to cut. -/
theorem cutCount_dedented (noReturn : '\r' ∉ region.text) :
    cutCount .code (Text.lines (joinLines (dedentBody region.text region.indent))) = 0 := by
  apply Code.cutCount_lines_of_pieces (noReturn_dedented noReturn)
  by_cases empty : dedentBody region.text region.indent = []
  · rw [empty]
    rfl
  · rw [Text.pieces_joinLines empty (Code.unbroken_dedentBody _ _)]
    exact (Code.movesAll_dedentBody region.text region.indent).cutCount_moved

/-- A block holds the verbatim strings of its body, less what was cut off. -/
theorem verbatims_wrap (oneLine : '\n' ∉ id.toText) (closed : Closed region.text)
    (noReturn : '\r' ∉ region.text) :
    (verbatims (Block.wrap id region).text).flatten.length +
          cutCount .code (Text.lines region.text) = (verbatims region.text).flatten.length ∧
      (cutCount .code (Text.lines region.text) = 0 →
        verbatims (Block.wrap id region).text = verbatims region.text) := by
  have body := closed_dedented closed
  have inward := (body.quoted_indentBlock Text.allBlank_indentStep unbroken_indentStep
    (noReturn_dedented noReturn)).2 (cutCount_dedented noReturn)
  obtain ⟨counts, same⟩ := closed.quoted_dedentBody region.indent noReturn
  have whole : Mode.code.quoted (Block.wrap id region).text =
      Mode.code.quoted (joinLines (dedentBody region.text region.indent)) :=
    (quoted_wrap oneLine (closed_bodyLines closed)).trans inward
  rw [← Code.quotedCount_eq_verbatims, ← Code.quotedCount_eq_verbatims, whole]
  refine ⟨counts, fun none => ?_⟩
  rw [verbatims, verbatims, whole, same none]

theorem noReturn_bodyLines (noReturn : '\r' ∉ region.text) :
    ∀ line ∈ bodyLines region, '\r' ∉ line :=
  Code.not_mem_indentBlock (by decide) fun _ =>
    Text.not_mem_of_mem_lines (noReturn_dedented noReturn)

theorem cutCount_lines (closed : Closed region.text) : cutCount .code (lines id region) = 0 := by
  have moved : cutCount .code (bodyLines region) = 0 :=
    (Code.MovesAll.map_withCarry fun _ member => .indentLine Text.allBlank_indentStep
      (Text.unbroken_of_mem_lines (Code.mem_of_mem_withCarry member))).cutCount_moved
  have ends : (Carry.code.mode.runLines (bodyLines region)).carry = .code :=
    congrArg Mode.carry (runLines_bodyLines closed)
  have comment : (Code.scanLine (Text.indentStep ++ provenance id) .code).carry = .code := by
    rw [Code.scanLine_eq_scan]
    exact (scan_provenance id).2
  have commentWhole : Code.cutOff (.code, Text.indentStep ++ provenance id) = [] := by
    rw [Code.cutOff_eq (by decide), comment]
    rfl
  have brace : (Code.scanLine ['{'] .code).carry = .code := rfl
  rw [lines, List.cons_append, List.cons_append, Code.cutCount_cons, Code.cutCount_cons, brace,
    comment, commentWhole, Code.cutCount_append, moved, ends]
  rfl

theorem settled_wrap (oneLine : '\n' ∉ id.toText) (oneReturn : '\r' ∉ id.toText)
    (closed : Closed region.text) (noReturn : '\r' ∉ region.text) :
    Settled (Block.wrap id region).text := by
  refine ⟨closed_wrap oneLine closed, ?_, ?_⟩
  · intro member
    rw [text_wrap] at member
    rcases Text.mem_joinLines member with same | ⟨line, inside, inLine⟩
    · cases same
    · exact not_mem_lines (Or.inr rfl) oneReturn (noReturn_bodyLines noReturn) line inside inLine
  · rw [text_wrap, Text.pieces_joinLines (by simp [lines]) (unbroken_lines oneLine)]
    exact cutCount_lines closed

end Block

namespace Migration

/-- Neither the identity nor a line of the migration holds a line break. -/
structure Whole (migration : Migration) : Prop where
  id : '\n' ∉ migration.id.toText ∧ '\r' ∉ migration.id.toText
  lines : ∀ line ∈ migration.source.lines, '\n' ∉ line ∧ '\r' ∉ line

namespace Whole

variable {migration : Migration} (whole : migration.Whole) (procedure : Procedure)
include whole

theorem closed : Closed (extract procedure migration.source.lines).text :=
  Code.closed_extract fun line member => (whole.lines line member).1

theorem noReturn : '\r' ∉ (extract procedure migration.source.lines).text := by
  cases located : locate? procedure migration.source.lines with
  | none =>
      rw [extract, Code.extract?, located]
      exact List.not_mem_nil
  | some bounds =>
      obtain ⟨frame, holds, same, -⟩ := Code.locate?_eq_some_iff.1 located
      have absent : ∀ line ∈ frame.lines, '\r' ∉ line := fun line member =>
        (whole.lines line (same ▸ member)).2
      rw [same, Code.extract_lines holds]
      intro member
      rcases Text.mem_joinLines (Text.mem_of_mem_trim member) with feed | ⟨piece, inside, inPiece⟩
      · cases feed
      · exact Frame.not_mem_pieces absent piece inside inPiece

theorem settled : Settled (migration.wrapped procedure).text :=
  Block.settled_wrap whole.id.1 whole.id.2 (whole.closed procedure) (whole.noReturn procedure)

theorem verbatims_wrapped :
    (verbatims (migration.wrapped procedure).text).flatten.length +
          cutCount .code (Text.lines (extract procedure migration.source.lines).text) =
        (verbatims (extract procedure migration.source.lines).text).flatten.length ∧
      (cutCount .code (Text.lines (extract procedure migration.source.lines).text) = 0 →
        verbatims (migration.wrapped procedure).text =
          verbatims (extract procedure migration.source.lines).text) :=
  Block.verbatims_wrap whole.id.1 (whole.closed procedure) (whole.noReturn procedure)

end Whole

end Migration

section Lengths

variable {α : Type} {left right : α → List Text} {items : List α}

theorem length_flatMap_le
    (parts : ∀ item ∈ items, (left item).flatten.length ≤ (right item).flatten.length) :
    (items.flatMap left).flatten.length ≤ (items.flatMap right).flatten.length := by
  induction items with
  | nil => exact Nat.le_refl _
  | cons item rest ih =>
      have here := parts item List.mem_cons_self
      have later := ih fun other member => parts other (List.mem_cons_of_mem _ member)
      simp only [List.flatMap_cons, List.flatten_append, List.length_append] at later ⊢
      omega

/-- Parts none of which is longer, and that are as long in all, are as long each. -/
theorem length_eq_of_flatMap
    (parts : ∀ item ∈ items, (left item).flatten.length ≤ (right item).flatten.length)
    (total : (items.flatMap left).flatten.length = (items.flatMap right).flatten.length) :
    ∀ item ∈ items, (left item).flatten.length = (right item).flatten.length := by
  induction items with
  | nil => exact fun _ member => absurd member List.not_mem_nil
  | cons item rest ih =>
      have here := parts item List.mem_cons_self
      have behind : ∀ other ∈ rest, (left other).flatten.length ≤ (right other).flatten.length :=
        fun other member => parts other (List.mem_cons_of_mem _ member)
      have later := length_flatMap_le behind
      simp only [List.flatMap_cons, List.flatten_append, List.length_append] at total
      intro other member
      rcases List.mem_cons.1 member with rfl | inRest
      · omega
      · exact ih behind (by omega) other inRest

end Lengths

section Merged

variable {procedure : Procedure} {migrations : List Migration}

theorem settled_merged (whole : ∀ migration ∈ migrations, migration.Whole) :
    Settled (mergedProcedure procedure migrations).text :=
  mergedProcedure_induction .nil (fun _ _ => Settled.append_feed) fun migration member =>
    (whole migration member).settled procedure

/-- A migration that adds no block would add no verbatim string either. -/
theorem verbatims_of_not_contributes {migration : Migration} (whole : migration.Whole)
    (adds : migration.contributes procedure = false) :
    verbatims (migration.wrapped procedure).text = [] := by
  have empty : (extract procedure migration.source.lines).text = [] := by
    simpa [Migration.contributes, Code.Region.isEmpty] using adds
  have same := (whole.verbatims_wrapped procedure).2
  rw [empty] at same
  exact same rfl

theorem flatMap_filter {α β : Type} {keep : α → Bool} {f : α → List β} {items : List α}
    (rest : ∀ item ∈ items, keep item = false → f item = []) :
    (items.filter keep).flatMap f = items.flatMap f := by
  induction items with
  | nil => rfl
  | cons item more ih =>
      have later := ih fun other member => rest other (List.mem_cons_of_mem _ member)
      rw [List.filter_cons, List.flatMap_cons, ← later]
      cases kept : keep item with
      | true => rfl
      | false =>
          rw [rest item List.mem_cons_self kept]
          rfl

theorem verbatims_merged (whole : ∀ migration ∈ migrations, migration.Whole) :
    verbatims (mergedProcedure procedure migrations).text =
      (procedure.mergeOrder.arrange migrations).flatMap
        fun migration => verbatims (migration.wrapped procedure).text := by
  have closed : ∀ text ∈ ((mergedProcedure procedure migrations).blocks.map (·.text)),
      Closed text := by
    intro text member
    obtain ⟨migration, given, rfl⟩ := exists_of_mem_blocks member
    exact ((whole migration given).settled procedure).closed
  rw [Aggregate.text, Code.verbatims_join closed, mergedProcedure, blocks_aggregate, List.map_map,
    List.flatMap_map]
  apply flatMap_filter
  intro migration member adds
  exact verbatims_of_not_contributes (whole migration (mem_arrange member)) adds

theorem verbatims_replaced (whole : ∀ migration ∈ migrations, migration.Whole)
    {lines : List Text} {bounds : Code.Bounds} (located : locate? procedure lines = some bounds)
    (before : bounds.SignedBefore procedure lines) :
    verbatims (extract procedure (replaceMerged procedure migrations lines)).text =
      (procedure.mergeOrder.arrange migrations).flatMap
        fun migration => verbatims (migration.wrapped procedure).text := by
  obtain ⟨frame, holds, rfl, rfl⟩ := Code.locate?_eq_some_iff.1 located
  have settled : Settled (mergedProcedure procedure migrations).text := settled_merged whole
  have filled := holds.filled (Frame.signed_of_signedBefore before) settled.closed
  have blank := frame.allBlank_bodyIndent
  have unbroken := frame.unbroken_bodyIndent
  have closed := settled.closed.joinLines_indentBlock blank unbroken
  have kept := (settled.closed.quoted_indentBlock blank unbroken settled.noReturn).2
    (Code.cutCount_lines_of_pieces settled.noReturn settled.smooth)
  have text : (extract procedure (replaceMerged procedure migrations frame.lines)).text =
      Text.trim (joinLines
        (indentBlock (mergedProcedure procedure migrations).text frame.bodyIndent)) := by
    rw [replaceMerged, Code.replace_lines holds, Code.extract_lines filled]
    exact Code.trim_joinLines_enclosed (Text.allBlank_indentation _) _
  rw [text, closed.verbatims_trim, verbatims, kept]
  exact verbatims_merged whole

end Merged

/-- The block of a body, and the procedure it is merged into, hold the verbatim strings of the
body character for character exactly if the body is not ragged. -/
theorem verbatims_kept_iff {procedure : Procedure} {migrations : List Migration}
    (whole : ∀ migration ∈ migrations, migration.Whole) {lines : List Text} {bounds : Code.Bounds}
    (located : locate? procedure lines = some bounds)
    (before : bounds.SignedBefore procedure lines) :
    (∀ migration ∈ migrations,
      verbatims (migration.wrapped procedure).text =
          verbatims (extract procedure migration.source.lines).text ↔
        ¬ Code.Ragged (extract procedure migration.source.lines).text) ∧
    (verbatims (extract procedure (replaceMerged procedure migrations lines)).text =
        (procedure.mergeOrder.arrange migrations).flatMap
          (fun migration => verbatims (extract procedure migration.source.lines).text) ↔
      ∀ migration ∈ migrations, ¬ Code.Ragged (extract procedure migration.source.lines).text) := by
  have parts : ∀ migration ∈ procedure.mergeOrder.arrange migrations,
      (verbatims (migration.wrapped procedure).text).flatten.length ≤
        (verbatims (extract procedure migration.source.lines).text).flatten.length := by
    intro migration member
    have counts := ((whole migration (mem_arrange member)).verbatims_wrapped procedure).1
    omega
  constructor
  · intro migration member
    obtain ⟨counts, same⟩ := (whole migration member).verbatims_wrapped procedure
    rw [← Code.cutCount_eq_zero_iff]
    refine ⟨fun equal => ?_, same⟩
    rw [equal] at counts
    omega
  · rw [verbatims_replaced whole located before]
    constructor
    · intro equal migration member
      have same := length_eq_of_flatMap parts (congrArg (·.flatten.length) equal) migration
        (mem_arrange_iff.2 member)
      have counts := ((whole migration member).verbatims_wrapped procedure).1
      rw [← Code.cutCount_eq_zero_iff]
      omega
    · intro smooth
      apply List.flatMap_congr
      intro migration member
      have inside := mem_arrange member
      exact ((whole migration inside).verbatims_wrapped procedure).2
        ((Code.cutCount_eq_zero_iff _).2 (smooth migration inside))

theorem verbatims_kept_sample :
    (∀ migration ∈ [Sample.oldest, Sample.newest], migration.Whole) ∧
      verbatims (extract .up (replaceMerged .up [Sample.oldest, Sample.newest]
        Sample.oldest.source.lines)).text = ["\"SELECT \"\"\x7b\"\"\n  FROM Orders\"".toList] := by
  have whole : ∀ migration ∈ [Sample.oldest, Sample.newest], migration.Whole := by
    intro migration member
    have breaks : ∀ migration ∈ [Sample.oldest, Sample.newest],
        ('\n' ∉ migration.id.toText ∧ '\r' ∉ migration.id.toText) ∧
          ∀ line ∈ migration.source.lines, '\n' ∉ line ∧ '\r' ∉ line := by
      decide
    exact ⟨(breaks migration member).1, (breaks migration member).2⟩
  have located : locate? .up Sample.oldest.source.lines = some ⟨1, ⟨2, 4⟩, ⟨4, 4⟩⟩ := by
    decide
  have smooth : ∀ migration ∈ [Sample.oldest, Sample.newest],
      ¬ Code.Ragged (extract .up migration.source.lines).text := by
    decide
  refine ⟨whole, ?_⟩
  rw [(verbatims_kept_iff whole located (Or.inl (by decide))).2.2 smooth]
  decide

/-- A migration with a string that starts its first line break with blanks. -/
def Sample.ragged : Migration where
  id := ⟨"20240303000000".toList, "AddViews".toList⟩
  source := {
    lines := [
      "class AddViews \x7b".toList,
      "    void Up(Builder b) \x7b".toList,
      "        b.Sql(@\"SELECT 1   ".toList,
      "  FROM t\");".toList,
      "    \x7d".toList,
      "\x7d".toList]
    newline := .lineFeed
    marked := false }

/-- The blanks that the string starts its line break with are lost. -/
theorem verbatims_of_ragged_differ :
    verbatims (extract .up Sample.ragged.source.lines).text =
        ["\"SELECT 1   \n  FROM t\"".toList] ∧
      verbatims (Sample.ragged.wrapped .up).text = ["\"SELECT 1\n  FROM t\"".toList] ∧
      verbatims (extract .up (replaceMerged .up [Sample.ragged] Sample.ragged.source.lines)).text =
        ["\"SELECT 1\n  FROM t\"".toList] := by
  decide

end MigrationSquash
