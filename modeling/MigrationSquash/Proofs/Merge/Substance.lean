import MigrationSquash.Proofs.Merge.Literals

/-!
# The substance of merged bodies

Merging changes the indentation of a body and writes braces, comments and empty lines around
it.  What is left of a text without these is its substance.  Main statement: the substance of a
merged body is that of the bodies it was made of, in the order in which they have to run, and it
is still there when the merged body was moved into a procedure and read out of it again.
-/

set_option autoImplicit false

namespace MigrationSquash

open Code (Carry Closed Mode dedentBody dedentLine extract indentBlock indentLine scanLine
  withCarry)
open Text (joinLines Unbroken)

/-- A line that blocks are set up with: a blank one, a brace that stands alone, or the comment
that names one of the migrations. -/
def isScaffold (ids : List MigrationId) (line : Text) : Bool :=
  Text.isBlankText line || line == ['{'] || line == ['}'] ||
    ids.any fun id => line == Text.trimEnd (provenance id)

/-- A line without the spaces and tabs in front, and what is open where it starts.  A line that
starts inside a verbatim string is kept as it is. -/
def substance? (ids : List MigrationId) : Carry × Text → Option (Carry × Text)
  | (.verbatim, line) => some (.verbatim, line)
  | (carry, line) =>
      let text := line.dropWhile Text.isIndent
      if isScaffold ids text then none else some (carry, text)

/-- What `substance?` leaves of a line that has lost the blanks at its end. -/
def trimmedSubstance? (ids : List MigrationId) (pair : Carry × Text) : Option (Carry × Text) :=
  substance? ids (pair.1, indentLine [] pair)

namespace Code

variable {α : Type}

/-- What is read off the lines of a text, one after the other. -/
def reading (read : Carry × Text → Option α) (s : Text) : List α :=
  (withCarry .code (Text.lines s)).filterMap read

/-- Moved lines are read like the old ones if each of them is. -/
theorem filterMap_map_withCarry {read readMoved : Carry × Text → Option α}
    {move : Carry × Text → Text}
    (retells : ∀ (carry : Carry) (line : Text), carry.mode.Retells line (move (carry, line)))
    (same : ∀ (carry : Carry) (line : Text),
      readMoved (carry, move (carry, line)) = read (carry, line))
    (carry : Carry) (lines : List Text) :
    (withCarry carry ((withCarry carry lines).map move)).filterMap readMoved =
      (withCarry carry lines).filterMap read := by
  rw [withCarry_map retells, List.filterMap_map]
  exact List.filterMap_congr fun pair _ => same pair.1 pair.2

section Reading

variable {read : Carry × Text → Option α} (skips : read (.code, []) = none)
include skips

/-- A closed text is read piece by piece. -/
theorem reading_eq_pieces {s : Text} (closed : Closed s) (noReturn : '\r' ∉ s) :
    reading read s = (withCarry .code (Text.pieces s)).filterMap read := by
  obtain ⟨front, last, split, lines, shape⟩ := Text.lines_eq_pieces noReturn
  rw [reading, lines, split]
  rcases shape with rfl | single
  · have unbroken : ∀ line ∈ front ++ [[]], Unbroken line := by
      intro line member
      rw [← split] at member
      exact Text.unbroken_of_mem_pieces member
    have ends := Mode.code.carry_read_joinLines unbroken
    rw [← split, Text.joinLines_pieces, closed.ends, split, Mode.runLines_append] at ends
    have inCode : (Mode.code.runLines front).carry = .code := by
      simpa using ends.symm
    change (Carry.code.mode.runLines front).carry = .code at inCode
    rw [withCarry_append, withCarry_append, inCode]
    simp [Text.lines, withCarry, skips]
  · rw [single]

theorem reading_append_feed {s t : Text} (closed : Closed s) (noReturn : '\r' ∉ s)
    (closedBelow : Closed t) (noReturnBelow : '\r' ∉ t) :
    reading read (s ++ '\n' :: t) = reading read s ++ reading read t := by
  have ends : (Carry.code.mode.runLines (Text.pieces s)).carry = .code := by
    have carries := Mode.code.carry_read_joinLines
      (fun _ => Text.unbroken_of_mem_pieces : ∀ piece ∈ Text.pieces s, Unbroken piece)
    rw [Text.joinLines_pieces, closed.ends] at carries
    exact carries.symm
  have noReturnWhole : '\r' ∉ s ++ '\n' :: t := by
    simp [noReturn, noReturnBelow]
  rw [reading_eq_pieces skips (closed.append_feed closedBelow) noReturnWhole,
    reading_eq_pieces skips closed noReturn, reading_eq_pieces skips closedBelow noReturnBelow,
    Text.pieces_append_feed, withCarry_append, ends, List.filterMap_append]

theorem reading_joinLines {lines : List Text} (closed : Closed (joinLines lines))
    (unbroken : ∀ line ∈ lines, Unbroken line) (noReturn : ∀ line ∈ lines, '\r' ∉ line) :
    reading read (joinLines lines) = (withCarry .code lines).filterMap read := by
  by_cases empty : lines = []
  · rw [empty]
    rfl
  · have noReturnJoined : '\r' ∉ joinLines lines := by
      intro member
      rcases Text.mem_joinLines member with same | ⟨line, inside, inLine⟩
      · cases same
      · exact noReturn line inside inLine
    rw [reading_eq_pieces skips closed noReturnJoined, Text.pieces_joinLines empty unbroken]

theorem reading_join {texts : List Text} (all : ∀ s ∈ texts, Closed s ∧ '\r' ∉ s) :
    reading read (Text.join ['\n', '\n'] texts) = texts.flatMap (reading read) := by
  induction texts with
  | nil => rfl
  | cons s rest ih =>
      obtain ⟨closed, noReturn⟩ := all s List.mem_cons_self
      have behind : ∀ t ∈ rest, Closed t ∧ '\r' ∉ t := fun t member =>
        all t (List.mem_cons_of_mem s member)
      have later := ih behind
      cases rest with
      | nil => simp [Text.join]
      | cons next others =>
          have joined : Closed (Text.join ['\n', '\n'] (next :: others)) ∧
              '\r' ∉ Text.join ['\n', '\n'] (next :: others) :=
            Text.join_emptyLine_induction ⟨.nil, List.not_mem_nil⟩
              (fun _ _ left right => ⟨left.1.append_feed right.1, by simp [left.2, right.2]⟩) behind
          have below := reading_append_feed skips .nil List.not_mem_nil joined.1 joined.2
          have first := reading_append_feed skips closed noReturn
            (Closed.nil.append_feed joined.1) (by simp [joined.2])
          rw [List.nil_append] at first
          rw [List.flatMap_cons, ← later, Text.join, List.append_assoc]
          exact first.trans (congrArg (reading read s ++ ·) below)

end Reading

end Code

section Lines

variable {ids : List MigrationId} {carry : Carry} {line : Text}

theorem isScaffold_of_isBlankText (blank : Text.isBlankText line = true) :
    isScaffold ids line = true := by
  simp [isScaffold, blank]

theorem substance?_eq (outside : carry ≠ .verbatim) (line : Text) :
    substance? ids (carry, line) =
      if isScaffold ids (line.dropWhile Text.isIndent) then none
      else some (carry, line.dropWhile Text.isIndent) := by
  cases carry with
  | verbatim => exact absurd rfl outside
  | code | blockComment => rfl

theorem substance?_of_isBlankText (outside : carry ≠ .verbatim)
    (blank : Text.isBlankText line = true) : substance? ids (carry, line) = none := by
  have allBlank := Text.allBlank_iff.2 blank
  have rest : Text.isBlankText (line.dropWhile Text.isIndent) = true :=
    Text.allBlank_iff.1 fun c member => allBlank c ((List.dropWhile_sublist _).subset member)
  rw [substance?_eq outside, if_pos (isScaffold_of_isBlankText rest)]

theorem substance?_indent_append (outside : carry ≠ .verbatim) {indent : Text}
    (indents : ∀ c ∈ indent, Text.isIndent c = true) (line : Text) :
    substance? ids (carry, indent ++ line) = substance? ids (carry, line) := by
  rw [substance?_eq outside, substance?_eq outside, List.dropWhile_append_of_pos indents]

theorem trimmedSubstance?_eq (outside : carry ≠ .verbatim) (line : Text) :
    trimmedSubstance? ids (carry, line) = substance? ids (carry, Text.trimEnd line) := by
  rw [trimmedSubstance?, indentLine]
  · split
    case isTrue blank =>
      have trimmed : Text.isBlankText (Text.trimEnd line) = true := by
        rwa [Text.isBlankText_trimEnd]
      rw [substance?_of_isBlankText outside rfl, substance?_of_isBlankText outside trimmed]
    case isFalse => rfl
  · exact outside

/-- A moved line has lost the blanks at its end. -/
theorem Code.trimEnd_indentLine (outside : carry ≠ .verbatim) (indent line : Text) :
    Text.trimEnd (indentLine indent (carry, line)) = indentLine indent (carry, line) := by
  rw [indentLine]
  · split
    case isTrue => rfl
    case isFalse visible =>
      have trimmed : Text.isBlankText (Text.trimEnd line) = false := by
        rw [Text.isBlankText_trimEnd]
        simpa using visible
      rw [Text.trimEnd_append_of_visible trimmed, Text.trimEnd_trimEnd]
  · exact outside

variable (ids)

theorem substance?_indentLine {indent : Text} (indents : ∀ c ∈ indent, Text.isIndent c = true)
    (carry : Carry) (line : Text) :
    substance? ids (carry, indentLine indent (carry, line)) =
      trimmedSubstance? ids (carry, line) := by
  by_cases inside : carry = .verbatim
  · rw [inside]
    rfl
  · rw [trimmedSubstance?, indentLine, indentLine]
    · split
      case isTrue => rfl
      case isFalse => exact substance?_indent_append inside indents _
    · exact inside
    · exact inside

theorem trimmedSubstance?_indentLine {indent : Text}
    (indents : ∀ c ∈ indent, Text.isIndent c = true) (carry : Carry) (line : Text) :
    trimmedSubstance? ids (carry, indentLine indent (carry, line)) =
      trimmedSubstance? ids (carry, line) := by
  by_cases inside : carry = .verbatim
  · rw [inside]
    rfl
  · rw [trimmedSubstance?_eq inside, Code.trimEnd_indentLine inside,
      substance?_indentLine ids indents]

theorem trimmedSubstance?_dedentLine (common : Nat) (carry : Carry) (line : Text) :
    trimmedSubstance? ids (carry, dedentLine common (carry, line)) =
      trimmedSubstance? ids (carry, line) := by
  by_cases inside : carry = .verbatim
  · rw [inside]
    rfl
  · rw [trimmedSubstance?_eq inside, trimmedSubstance?_eq inside, dedentLine]
    · split
      case isTrue blank =>
        have trimmed : Text.isBlankText (Text.trimEnd line) = true := by
          rwa [Text.isBlankText_trimEnd]
        rw [substance?_of_isBlankText inside trimmed, substance?_of_isBlankText inside rfl]
      case isFalse visible =>
        -- what is cut off in front indents the line, so what is left is not blank either
        have split_ := List.take_append_drop (min common (Text.indentation line).length) line
        have indents : ∀ c ∈ line.take (min common (Text.indentation line).length),
            Text.isIndent c = true := fun _ => Code.isIndent_of_mem_take
        generalize line.take (min common (Text.indentation line).length) = front at split_ indents
        generalize line.drop (min common (Text.indentation line).length) = rest at split_
        subst split_
        have restVisible : Text.isBlankText rest = false := by
          have blank : front.all Text.isBlank = true :=
            List.all_eq_true.2 fun c member => Text.isBlank_of_isIndent (indents c member)
          simpa [Text.isBlankText, blank] using visible
        rw [Text.trimEnd_append_of_visible restVisible, substance?_indent_append inside indents,
          Text.trimEnd_trimEnd]
    · exact inside

end Lines

/-- What is left of a text without indentation, blank lines, braces that stand alone, and the
comments that name the migrations. -/
def substance (ids : List MigrationId) (s : Text) : List (Carry × Text) :=
  Code.reading (substance? ids) s

/-- The substance of a text whose lines lose the blanks at their end. -/
def trimmedSubstance (ids : List MigrationId) (s : Text) : List (Carry × Text) :=
  Code.reading (trimmedSubstance? ids) s

theorem trimmedSubstance_nil (ids : List MigrationId) : trimmedSubstance ids [] = [] := rfl

namespace Block

variable {ids : List MigrationId} {id : MigrationId} {region : Code.Region}

theorem substance?_brace (carry : Carry) (outside : carry ≠ .verbatim) (kind : Code.BraceKind) :
    substance? ids (carry, [kind.char]) = none := by
  have starts : [kind.char].dropWhile Text.isIndent = [kind.char] := by
    cases kind <;> decide
  have scaffold : isScaffold ids [kind.char] = true := by
    cases kind <;> simp [isScaffold, Code.BraceKind.char]
  rw [substance?_eq outside, starts, if_pos scaffold]

theorem trimmedSubstance?_brace (kind : Code.BraceKind) :
    trimmedSubstance? ids (.code, [kind.char]) = none := by
  have trimmed : Text.trimEnd [kind.char] = [kind.char] := by
    cases kind <;> decide
  rw [trimmedSubstance?_eq (by decide), trimmed, substance?_brace .code (by decide)]

/-- The comment on top of a block goes with its braces. -/
theorem trimmedSubstance?_provenance (member : id ∈ ids) :
    trimmedSubstance? ids (.code, Text.indentStep ++ provenance id) = none := by
  obtain ⟨rest, front⟩ : ∃ rest, provenance id = '/' :: rest := ⟨_, rfl⟩
  have slash : Text.isBlank '/' = false := by decide
  have visible : Text.isBlankText (provenance id) = false := by
    rw [front, Text.isBlankText, List.all_cons, slash, Bool.false_and]
  have starts : (Text.trimEnd (provenance id)).dropWhile Text.isIndent =
      Text.trimEnd (provenance id) := by
    have trimmed := Text.trimEnd_concat_append [] rest slash
    have noIndent : Text.isIndent '/' ≠ true := by decide
    rw [List.nil_append, List.singleton_append] at trimmed
    rw [front, trimmed, List.singleton_append, List.dropWhile_cons_of_neg noIndent]
  have scaffold : isScaffold ids (Text.trimEnd (provenance id)) = true := by
    rw [isScaffold, Bool.or_eq_true]
    exact Or.inr (List.any_eq_true.2 ⟨id, member, beq_self_eq_true _⟩)
  rw [trimmedSubstance?_eq (by decide), Text.trimEnd_append_of_visible visible,
    substance?_indent_append (by decide) Text.isIndent_of_mem_indentStep, substance?_eq (by decide),
    starts, if_pos scaffold]

theorem filterMap_dedentBody (s : Text) (firstIndent : Option Nat) :
    (withCarry .code (dedentBody s firstIndent)).filterMap (trimmedSubstance? ids) =
      trimmedSubstance ids s := by
  rw [trimmedSubstance, Code.reading]
  cases split : Text.lines s with
  | nil => simp [dedentBody, split, withCarry]
  | cons first rest =>
      have carries := (Code.retells_dedentLine 0 .code first).carry_scanLine
      have later (common : Nat) := Code.filterMap_map_withCarry (Code.retells_dedentLine common)
        (trimmedSubstance?_dedentLine ids common) (scanLine first .code).carry rest
      simp only [dedentBody, split, withCarry, List.filterMap_cons, carries, later,
        trimmedSubstance?_dedentLine]

/-- A body keeps its substance on its way out of its procedure and into its block. -/
theorem trimmedSubstance_wrap (member : id ∈ ids) (whole : '\n' ∉ id.toText ∧ '\r' ∉ id.toText)
    (closed : Closed region.text) (noReturn : '\r' ∉ region.text) :
    trimmedSubstance ids (Block.wrap id region).text = trimmedSubstance ids region.text := by
  have skips : trimmedSubstance? ids (.code, []) = none := rfl
  have comment : (scanLine (Text.indentStep ++ provenance id) .code).carry = .code := by
    rw [Code.scanLine_eq_scan]
    exact (scan_provenance id).2
  have brace : (scanLine ['{'] .code).carry = .code := rfl
  have ends : (Carry.code.mode.runLines (bodyLines region)).carry = .code :=
    congrArg Mode.carry (runLines_bodyLines closed)
  have opening : trimmedSubstance? ids (.code, ['{']) = none := trimmedSubstance?_brace .opening
  have closing : trimmedSubstance? ids (.code, ['}']) = none := trimmedSubstance?_brace .closing
  have last : (withCarry .code [['}']]).filterMap (trimmedSubstance? ids) = [] := by
    rw [withCarry, List.filterMap_cons, closing]
    rfl
  have inward := Code.filterMap_map_withCarry (Code.retells_indentLine Text.allBlank_indentStep)
    (trimmedSubstance?_indentLine ids Text.isIndent_of_mem_indentStep) .code
    (Text.lines (joinLines (dedentBody region.text region.indent)))
  have outward := Code.reading_joinLines skips (closed_dedented closed)
    (Code.unbroken_dedentBody _ _) (Code.not_mem_dedentBody region.indent
      fun _ => Text.not_mem_of_mem_lines noReturn)
  rw [trimmedSubstance, text_wrap, Code.reading_joinLines skips]
  · rw [lines, List.cons_append, List.cons_append, withCarry, withCarry, brace, comment,
      Code.withCarry_append, ends, List.filterMap_cons, opening, List.filterMap_cons,
      trimmedSubstance?_provenance member, List.filterMap_append, last, List.append_nil]
    exact inward.trans (outward.trans (filterMap_dedentBody region.text region.indent))
  · rw [← text_wrap]
    exact closed_wrap whole.1 closed
  · exact unbroken_lines whole.1
  · exact not_mem_lines (Or.inr rfl) whole.2 (noReturn_bodyLines noReturn)

end Block

namespace Text

/-- A text between a line that opens a block and a line that closes one. -/
def Bracketed (s : Text) : Prop := ∃ inner, pieces s = ['{'] :: inner ++ [['}']]

theorem bracketed_join {texts : List Text} (nonempty : texts ≠ [])
    (all : ∀ s ∈ texts, Bracketed s) : Bracketed (join ['\n', '\n'] texts) := by
  induction texts with
  | nil => exact absurd rfl nonempty
  | cons s rest ih =>
      obtain ⟨inner, first⟩ := all s List.mem_cons_self
      cases rest with
      | nil => exact ⟨inner, first⟩
      | cons next others =>
          obtain ⟨later, below⟩ := ih (List.cons_ne_nil _ _) fun t member =>
            all t (List.mem_cons_of_mem s member)
          refine ⟨inner ++ ['}'] :: [] :: ['{'] :: later, ?_⟩
          rw [join, List.append_assoc, List.cons_append, List.singleton_append,
            pieces_append_feed, first, pieces, below]
          simp

end Text

section Bracketed

variable {s indent : Text}

/-- Moving a closed text in between its brackets: the indentation of the first line is the only
thing that trimming cuts off. -/
theorem Code.Closed.trim_indentBlock (closed : Closed s) (noReturn : '\r' ∉ s)
    (bracketed : Text.Bracketed s) (indentBlank : Text.AllBlank indent) :
    ∃ inner, indentBlock s indent = (indent ++ ['{']) :: inner ++ [indent ++ ['}']] ∧
      Text.trim (joinLines (indentBlock s indent)) =
        joinLines (['{'] :: inner ++ [indent ++ ['}']]) := by
  obtain ⟨inner, split⟩ := bracketed
  have lines : Text.lines s = ['{'] :: inner ++ [['}']] := by
    obtain ⟨front, last, pieces, lines, -⟩ := Text.lines_eq_pieces noReturn
    obtain ⟨rfl, same⟩ := List.append_inj' (split.symm.trans pieces) rfl
    obtain rfl := List.singleton_inj.1 same
    exact lines
  -- the last brace only leaves code open if it stands in code
  have ends : (Carry.code.mode.runLines (['{'] :: inner)).carry = .code := by
    have carries : (Carry.code.mode.runLines (Text.lines s)).carry = .code :=
      (Mode.code.kindsOfLines_lines s).2.trans closed.ends
    rw [lines, Mode.runLines_append] at carries
    obtain ⟨carry, mode⟩ := Mode.exists_runLines_mode .code (['{'] :: inner)
    rw [mode] at carries ⊢
    cases carry with
    | code => rfl
    | verbatim => exact carries
    | blockComment => exact carries
  have moved : indentBlock s indent =
      (indent ++ ['{']) :: ((withCarry .code inner).map (indentLine indent)) ++
        [indent ++ ['}']] := by
    have opening : indentLine indent (.code, ['{']) = indent ++ ['{'] := rfl
    have closing : indentLine indent (.code, ['}']) = indent ++ ['}'] := rfl
    have brace : (scanLine ['{'] .code).carry = .code := rfl
    rw [indentBlock, lines, withCarry_append, ends, withCarry, brace, List.map_append,
      List.map_cons, opening]
    exact congrArg (_ ++ [·]) closing
  refine ⟨_, moved, ?_⟩
  generalize (withCarry .code inner).map (indentLine indent) = middle at moved
  have last := Text.joinLines_concat_append (['{'] :: middle) indent ['}']
  rw [moved, List.cons_append, Text.joinLines_append_cons, Text.trim_blanks_append indentBlank,
    ← List.cons_append]
  apply Text.trim_of_visible (c := '{') (d := '}')
  · cases middle <;> simp
  · rw [last, List.getLast?_append]
    rfl
  · decide
  · decide

/-- What is read off a text that was moved in and trimmed, if the first brace is read without its
indentation like with it. -/
theorem Code.Closed.reading_trim_indentBlock {α : Type} {read : Carry × Text → Option α}
    (skips : read (.code, []) = none) (closed : Closed s) (noReturn : '\r' ∉ s)
    (bracketed : Text.Bracketed s) (indentBlank : Text.AllBlank indent)
    (noBreak : '\n' ∉ indent ∧ '\r' ∉ indent)
    (first : read (.code, ['{']) = read (.code, indent ++ ['{'])) :
    Code.reading read (Text.trim (joinLines (indentBlock s indent))) =
      (withCarry .code (indentBlock s indent)).filterMap read := by
  have unbroken := Code.unbroken_indentBlock noBreak.1 s
  have noReturns : ∀ line ∈ indentBlock s indent, '\r' ∉ line :=
    Code.not_mem_indentBlock noBreak.2 fun _ => Text.not_mem_of_mem_lines noReturn
  have trimmed := (closed.joinLines_indentBlock indentBlank noBreak.1).trim
  obtain ⟨inner, lines, text⟩ := closed.trim_indentBlock noReturn bracketed indentBlank
  rw [text] at trimmed ⊢
  rw [lines] at unbroken noReturns ⊢
  have carries : (scanLine (indent ++ ['{']) .code).carry = (scanLine ['{'] .code).carry := by
    rw [scanLine_eq_scan, scanLine_eq_scan]
    exact congrArg Mode.carry (Mode.kinds_mode_blanks indentBlank .code ['{']).2
  rw [Code.reading_joinLines skips trimmed, List.cons_append, List.cons_append, withCarry,
    withCarry, carries, List.filterMap_cons, List.filterMap_cons, first]
  · intro line member
    rcases List.mem_cons.1 member with rfl | later
    · exact fun inside => unbroken _ List.mem_cons_self (List.mem_append_right indent inside)
    · exact unbroken line (List.mem_cons_of_mem _ later)
  · intro line member
    rcases List.mem_cons.1 member with rfl | later
    · exact fun inside => noReturns _ List.mem_cons_self (List.mem_append_right indent inside)
    · exact noReturns line (List.mem_cons_of_mem _ later)

end Bracketed

namespace Block

variable {id : MigrationId} {region : Code.Region}

theorem bracketed_wrap (oneLine : '\n' ∉ id.toText) : Text.Bracketed (wrap id region).text :=
  ⟨_, Text.pieces_joinLines (List.cons_ne_nil _ _) (unbroken_lines oneLine)⟩

end Block

/-- The substance of a body of the migration. -/
def Migration.substance (ids : List MigrationId) (procedure : Procedure) (migration : Migration) :
    List (Carry × Text) :=
  trimmedSubstance ids (extract procedure migration.source.lines).text

section Merged

variable {ids : List MigrationId} {procedure : Procedure} {migrations : List Migration}
  (whole : ∀ migration ∈ migrations, migration.Whole)
include whole

theorem bracketed_merged (procedure : Procedure) :
    (mergedProcedure procedure migrations).text = [] ∨
      Text.Bracketed (mergedProcedure procedure migrations).text := by
  by_cases none : (mergedProcedure procedure migrations).blocks = []
  · left
    rw [Aggregate.text, none]
    rfl
  · right
    apply Text.bracketed_join (by simpa using none)
    intro text member
    obtain ⟨migration, given, rfl⟩ := exists_of_mem_blocks member
    exact Block.bracketed_wrap (whole migration given).id.1

/-- A merged body has the substance of the bodies it was made of, in the order in which they have
to run. -/
theorem trimmedSubstance_merged (named : ∀ migration ∈ migrations, migration.id ∈ ids) :
    trimmedSubstance ids (mergedProcedure procedure migrations).text =
      (procedure.mergeOrder.arrange migrations).flatMap (·.substance ids procedure) := by
  have all : ∀ text ∈ (mergedProcedure procedure migrations).blocks.map (·.text),
      Closed text ∧ '\r' ∉ text := by
    intro text member
    obtain ⟨migration, given, rfl⟩ := exists_of_mem_blocks member
    have settled := (whole migration given).settled procedure
    exact ⟨settled.closed, settled.noReturn⟩
  have wrapped : ∀ migration ∈ (procedure.mergeOrder.arrange migrations).filter
      (·.contributes procedure), trimmedSubstance ids (migration.wrapped procedure).text =
        migration.substance ids procedure := by
    intro migration member
    have given := mem_arrange (List.mem_filter.1 member).1
    exact Block.trimmedSubstance_wrap (named migration given) (whole migration given).id
      ((whole migration given).closed procedure) ((whole migration given).noReturn procedure)
  have skips : trimmedSubstance? ids (.code, []) = none := rfl
  have joined := Code.reading_join skips all
  rw [trimmedSubstance, Aggregate.text, joined, mergedProcedure, blocks_aggregate, List.map_map,
    List.flatMap_map]
  refine (List.flatMap_congr wrapped).trans (flatMap_filter ?_)
  intro migration _ adds
  have empty : (extract procedure migration.source.lines).text = [] := by
    simpa [Migration.contributes, Code.Region.isEmpty] using adds
  rw [Migration.substance, empty, trimmedSubstance_nil]

/-- A merged body keeps its substance where it is written. -/
theorem substance_trim_merged (ids : List MigrationId) (procedure : Procedure) {indent : Text}
    (indents : ∀ c ∈ indent, Text.isIndent c = true) :
    let written := Text.trim (joinLines
      (indentBlock (mergedProcedure procedure migrations).text indent))
    substance ids written = trimmedSubstance ids (mergedProcedure procedure migrations).text ∧
      trimmedSubstance ids written =
        trimmedSubstance ids (mergedProcedure procedure migrations).text := by
  have settled : Settled (mergedProcedure procedure migrations).text := settled_merged whole
  have indentBlank : Text.AllBlank indent :=
    fun c member => Text.isBlank_of_isIndent (indents c member)
  have noBreak : '\n' ∉ indent ∧ '\r' ∉ indent := by
    constructor <;> exact fun member => absurd (indents _ member) (by decide)
  rcases bracketed_merged whole procedure with empty | bracketed
  · rw [empty]
    exact ⟨rfl, rfl⟩
  have retells := Code.retells_indentLine indentBlank
  constructor
  · refine (settled.closed.reading_trim_indentBlock rfl settled.noReturn bracketed indentBlank
      noBreak ?_).trans
        (Code.filterMap_map_withCarry retells (substance?_indentLine ids indents) .code _)
    exact (substance?_indent_append (by decide) indents _).symm
  · refine (settled.closed.reading_trim_indentBlock rfl settled.noReturn bracketed indentBlank
      noBreak ?_).trans
        (Code.filterMap_map_withCarry retells (trimmedSubstance?_indentLine ids indents) .code _)
    have brace : indentLine indent (.code, ['{']) = indent ++ ['{'] := rfl
    rw [← brace, trimmedSubstance?_indentLine ids indents]

end Merged

end MigrationSquash
