import MigrationSquash.Proofs.Scan.Layout

/-!
# Dedented blocks

A text that starts and ends with something visible is moved behind an indentation and trimmed.  The
lines that start in code or in a comment then start with the indentation, the first one apart, and
the same lines start inside verbatim strings.  So dedenting takes the indentation off again, and a
text that was moved in and out is moved like the old one from then on.
-/

set_option autoImplicit false

namespace MigrationSquash

namespace Text

/-- Lines end visibly if the last one does. -/
theorem getLast?_joinLines_iff {d : Char} (visible : isBlank d = false) (front : List Text)
    (last : Text) : (joinLines (front ++ [last])).getLast? = some d ↔ last.getLast? = some d := by
  have split : joinLines (front ++ [last]) = joinLines (front ++ [[]]) ++ last :=
    joinLines_concat_append front [] last
  have feed : (joinLines (front ++ [[]])).getLast? ≠ some d := by
    cases front with
    | nil => exact nofun
    | cons line more =>
        rw [joinLines_append (line :: more) [[]] (by simp) (by simp), joinLines_singleton,
          List.getLast?_concat]
        rintro ⟨⟩
        exact Bool.noConfusion visible
  rw [split, List.getLast?_append]
  cases last.getLast? with
  | none => exact ⟨fun ends => absurd ends feed, nofun⟩
  | some e => exact Iff.rfl

/-- Without carriage returns the lines of a text that ends visibly are its pieces. -/
theorem lines_eq_pieces_of_visible {s : Text} {d : Char} (noReturn : '\r' ∉ s)
    (ends : s.getLast? = some d) (visible : isBlank d = false) : lines s = pieces s := by
  obtain ⟨front, last, pieces, lines, shape⟩ := lines_eq_pieces noReturn
  rcases shape with rfl | single
  · rw [← joinLines_pieces s, pieces, getLast?_joinLines_iff visible] at ends
    cases ends
  · rw [lines, single, pieces]

end Text

namespace Code

open Text (joinLines Unbroken)

variable {indent : Text}

section Lines

variable {carry : Carry} {line : Text}

theorem indentLine_eq (outside : carry ≠ .verbatim) (indent line : Text) :
    indentLine indent (carry, line) =
      if Text.isBlankText line then [] else indent ++ Text.trimEnd line := by
  cases carry with
  | verbatim => exact absurd rfl outside
  | code | blockComment => rfl

theorem dedentLine_eq (outside : carry ≠ .verbatim) (common : Nat) (line : Text) :
    dedentLine common (carry, line) =
      if Text.isBlankText line then []
      else Text.trimEnd (line.drop (min common (Text.indentation line).length)) := by
  cases carry with
  | verbatim => exact absurd rfl outside
  | code | blockComment => rfl

theorem measuredIndent?_eq (outside : carry ≠ .verbatim) (line : Text) :
    measuredIndent? (carry, line) =
      if Text.isBlankText line then none else some (Text.indentation line).length := by
  cases carry with
  | verbatim => exact absurd rfl outside
  | code | blockComment => rfl

theorem visible_append_trimEnd (indent : Text) (visible : ¬ Text.isBlankText line = true) :
    ¬ Text.isBlankText (indent ++ Text.trimEnd line) = true := by
  rw [← Text.isBlankText_trimEnd] at visible
  rw [Text.isBlankText, List.all_append, Bool.and_eq_true]
  exact fun blank => visible blank.2

variable (carry line)

/-- A line that was moved in can be moved out. -/
theorem dedentLine_indentLine (indents : ∀ c ∈ indent, Text.isIndent c = true) :
    dedentLine indent.length (carry, indentLine indent (carry, line)) =
      indentLine [] (carry, line) := by
  by_cases inside : carry = .verbatim
  · rw [inside]
    rfl
  · rw [dedentLine_eq inside, indentLine_eq inside, indentLine_eq inside]
    by_cases visible : Text.isBlankText line = true
    · rw [if_pos visible, if_pos visible]
      rfl
    · have longer : min indent.length (Text.indentation (indent ++ Text.trimEnd line)).length =
          indent.length := by
        rw [Text.indentation, List.takeWhile_append_of_pos indents, List.length_append]
        omega
      rw [if_neg visible, if_neg visible, if_neg (visible_append_trimEnd indent visible), longer,
        List.drop_left, Text.trimEnd_trimEnd, List.nil_append]

/-- A line that was moved in can be moved again. -/
theorem indentLine_indentLine (indent more : Text) :
    indentLine indent (carry, indentLine more (carry, line)) =
      indentLine (indent ++ more) (carry, line) := by
  by_cases inside : carry = .verbatim
  · rw [inside]
    rfl
  · rw [indentLine_eq inside, indentLine_eq inside, indentLine_eq inside]
    by_cases visible : Text.isBlankText line = true
    · rw [if_pos visible, if_pos visible]
      rfl
    · have trimmed : Text.isBlankText (Text.trimEnd line) = false := by
        rw [Text.isBlankText_trimEnd]
        simpa using visible
      rw [if_neg visible, if_neg visible, if_neg (visible_append_trimEnd more visible),
        Text.trimEnd_append_of_visible trimmed, Text.trimEnd_trimEnd, List.append_assoc]

variable {carry line}

theorem length_le_of_measuredIndent? (indents : ∀ c ∈ indent, Text.isIndent c = true) {n : Nat}
    (measured : measuredIndent? (carry, indentLine indent (carry, line)) = some n) :
    indent.length ≤ n := by
  by_cases inside : carry = .verbatim
  · rw [inside] at measured
    cases measured
  · rw [measuredIndent?_eq inside, indentLine_eq inside] at measured
    by_cases visible : Text.isBlankText line = true
    · rw [if_pos visible] at measured
      cases measured
    · rw [if_neg visible, if_neg (visible_append_trimEnd indent visible), Text.indentation,
        List.takeWhile_append_of_pos indents, List.length_append] at measured
      obtain rfl := Option.some.inj measured
      omega

/-- A line that ends visibly ends so when it is moved. -/
theorem getLast?_indentLine {d : Char} (last : line.getLast? = some d)
    (visible : Text.isBlank d = false) : (indentLine indent (carry, line)).getLast? = some d := by
  by_cases inside : carry = .verbatim
  · rw [inside]
    exact last
  · obtain ⟨front, rfl⟩ := List.getLast?_eq_some_iff.1 last
    have shows : ¬ Text.isBlankText (front ++ [d]) = true := by
      simp [Text.isBlankText, visible]
    rw [indentLine_eq inside, if_neg shows, Text.trimEnd_concat_of_visible front visible,
      ← List.append_assoc, List.getLast?_concat]

end Lines

/-- Lines that were moved in are moved again. -/
theorem map_indentLine_indentBlock {more : Text} (allBlank : Text.AllBlank more) (s : Text)
    (indent : Text) : (withCarry .code (indentBlock s more)).map (indentLine indent) =
      indentBlock s (indent ++ more) := by
  rw [indentBlock, withCarry_map (retells_indentLine allBlank), List.map_map, indentBlock]
  exact List.map_congr_left fun pair _ => indentLine_indentLine pair.1 pair.2 indent more

/-- A text without carriage returns that starts and ends with something visible. -/
structure Bare (s : Text) : Prop where
  noReturn : '\r' ∉ s
  starts : ∀ c ∈ s.head?, Text.isBlank c = false
  ends : ∀ d ∈ s.getLast?, Text.isBlank d = false

theorem bare_of_trim {s : Text} (noReturn : '\r' ∉ s) (trimmed : Text.trim s = s) : Bare s := by
  refine ⟨noReturn, fun c first => ?_, fun d last => ?_⟩
  · obtain ⟨blanks, split, -⟩ := Text.trimEnd_append_blanks (Text.trimStart s)
    have starts : (Text.trimStart s).head? = some c := by
      rw [split, ← Text.trim, trimmed, List.head?_append, first]
      rfl
    have visible := List.head?_dropWhile_not Text.isBlank s
    rw [← Text.trimStart, starts] at visible
    simpa using visible
  · by_contra blank
    rw [← trimmed] at last
    exact Text.getLast?_trimEnd_ne (by simpa using blank) _ last

namespace Bare

variable {s : Text} (bare : Bare s)
include bare

theorem trim_eq : Text.trim s = s := by
  cases first : s.head? with
  | none => rw [List.head?_eq_none_iff.1 first]; rfl
  | some c =>
      cases last : s.getLast? with
      | none => rw [List.getLast?_eq_none_iff.1 last]; rfl
      | some d => exact Text.trim_of_visible first last (bare.starts c first) (bare.ends d last)

theorem lines_eq (nonempty : s ≠ []) : Text.lines s = Text.pieces s := by
  obtain ⟨d, last⟩ := Option.ne_none_iff_exists'.1 fun none =>
    nonempty (List.getLast?_eq_none_iff.1 none)
  exact Text.lines_eq_pieces_of_visible bare.noReturn last (bare.ends d last)

/-- The first line starts with something visible. -/
theorem exists_lines_eq (nonempty : s ≠ []) :
    ∃ c more rest, Text.lines s = (c :: more) :: rest ∧ Text.isBlank c = false := by
  have whole := Text.joinLines_pieces s
  rw [bare.lines_eq nonempty]
  cases split : Text.pieces s with
  | nil => exact absurd split (Text.pieces_ne_nil s)
  | cons first rest =>
      rw [split] at whole
      cases first with
      | cons c more =>
          refine ⟨c, more, rest, rfl, bare.starts c ?_⟩
          rw [← whole]
          cases rest <;> rfl
      | nil =>
          cases rest with
          | nil => exact absurd whole.symm nonempty
          | cons next others =>
              have feed := bare.starts '\n' (by rw [← whole]; rfl)
              exact absurd feed (by decide)

end Bare

/-- The lines of a text, each but the first one behind `indent`. -/
def hangingBlock (s indent : Text) : List Text :=
  match withCarry .code (Text.lines s) with
  | [] => []
  | first :: rest => indentLine [] first :: rest.map (indentLine indent)

theorem hangingBlock_of_lines {s first : Text} {rest : List Text}
    (lines : Text.lines s = first :: rest) (indent : Text) :
    hangingBlock s indent = indentLine [] (.code, first) ::
      (withCarry (scanLine first .code).carry rest).map (indentLine indent) := by
  rw [hangingBlock, lines, withCarry]

theorem hangingBlock_nil (s : Text) : hangingBlock s [] = indentBlock s [] := by
  rw [hangingBlock, indentBlock]
  cases withCarry .code (Text.lines s) <;> rfl

theorem not_mem_hangingBlock {c : Char} (absentIndent : c ∉ indent) {s : Text}
    (absent : ∀ line ∈ Text.lines s, c ∉ line) : ∀ line ∈ hangingBlock s indent, c ∉ line := by
  intro line member
  have absentLine : ∀ pair ∈ withCarry .code (Text.lines s), c ∉ pair.2 := fun pair inside =>
    absent pair.2 (mem_of_mem_withCarry inside)
  rw [hangingBlock] at member
  cases split : withCarry .code (Text.lines s) with
  | nil =>
      rw [split] at member
      cases member
  | cons first rest =>
      rw [split] at member absentLine
      rcases List.mem_cons.1 member with rfl | later
      · exact not_mem_indentLine List.not_mem_nil (absentLine first List.mem_cons_self)
      · obtain ⟨pair, inside, rfl⟩ := List.mem_map.1 later
        exact not_mem_indentLine absentIndent
          (absentLine pair (List.mem_cons_of_mem first inside))

theorem indentLine_code_cons {c : Char} (visible : Text.isBlank c = false) (indent more : Text) :
    indentLine indent (.code, c :: more) = indent ++ c :: Text.trimEnd more := by
  have shows : ¬ Text.isBlankText (c :: more) = true := by simp [Text.isBlankText, visible]
  rw [indentLine_eq (by decide), if_neg shows]
  exact congrArg (indent ++ ·) (Text.trimEnd_concat_append [] more visible)

theorem dedentBody_of_lines {s first : Text} {rest : List Text}
    (lines : Text.lines s = first :: rest) (firstIndent : Option Nat) :
    dedentBody s firstIndent = dedentLine 0 (.code, first) ::
      (withCarry (scanLine first .code).carry rest).map
        (dedentLine ((((withCarry (scanLine first .code).carry rest).filterMap measuredIndent? ++
          firstIndent.toList).min?).getD 0)) := by
  rw [dedentBody, lines, withCarry]

/-- The indentation of lines that were moved in. -/
theorem min?_measured (indents : ∀ c ∈ indent, Text.isIndent c = true)
    (pairs : List (Carry × Text)) :
    (((pairs.map fun pair => (pair.1, indentLine indent pair)).filterMap measuredIndent? ++
      (some indent.length).toList).min?).getD 0 = indent.length := by
  have least : ∀ n ∈ (pairs.map fun pair => (pair.1, indentLine indent pair)).filterMap
      measuredIndent? ++ (some indent.length).toList, indent.length ≤ n := by
    intro n member
    rcases List.mem_append.1 member with measured | own
    · obtain ⟨moved, inside, found⟩ := List.mem_filterMap.1 measured
      obtain ⟨⟨carry, line⟩, -, rfl⟩ := List.mem_map.1 inside
      exact length_le_of_measuredIndent? indents found
    · exact (List.mem_singleton.1 own).ge
  have own : indent.length ∈ (pairs.map fun pair => (pair.1, indentLine indent pair)).filterMap
      measuredIndent? ++ (some indent.length).toList :=
    List.mem_append_right _ List.mem_cons_self
  rw [List.min?_eq_some_iff.2 ⟨own, least⟩, Option.getD_some]

namespace Bare

variable {s : Text} (bare : Bare s)
include bare

theorem joinLines_indentBlock (nonempty : s ≠ []) (indent : Text) :
    joinLines (indentBlock s indent) = indent ++ joinLines (hangingBlock s indent) := by
  obtain ⟨c, more, rest, lines, visible⟩ := bare.exists_lines_eq nonempty
  rw [indentBlock, hangingBlock_of_lines lines, lines, withCarry, List.map_cons,
    indentLine_code_cons visible, indentLine_code_cons visible, Text.joinLines_append_cons,
    List.nil_append]

/-- The first line that is not blank shows the indentation. -/
theorem indentation_indentBlock (nonempty : s ≠ [])
    (indents : ∀ c ∈ indent, Text.isIndent c = true) :
    ((indentBlock s indent).find? (!Text.isBlankText ·)).map (Text.indentation · |>.length) =
      some indent.length := by
  obtain ⟨c, more, rest, lines, visible⟩ := bare.exists_lines_eq nonempty
  have noIndent : ¬ Text.isIndent c = true := fun indents =>
    Bool.noConfusion (visible.symm.trans (Text.isBlank_of_isIndent indents))
  have shows : (!Text.isBlankText (indent ++ c :: Text.trimEnd more)) = true := by
    simp [Text.isBlankText, visible]
  rw [indentBlock, lines, withCarry, List.map_cons, indentLine_code_cons visible,
    List.find?_cons_of_pos (p := (!Text.isBlankText ·)) shows, Option.map_some, Text.indentation,
    List.takeWhile_append_of_pos indents, List.takeWhile_cons_of_neg noIndent, List.append_nil]

theorem hangingBlock_ne_nil (nonempty : s ≠ []) (indent : Text) : hangingBlock s indent ≠ [] := by
  obtain ⟨c, more, rest, lines, -⟩ := bare.exists_lines_eq nonempty
  rw [hangingBlock_of_lines lines]
  exact List.cons_ne_nil _ _

/-- The last line ends like the text. -/
theorem getLast?_hangingBlock {d : Char} (ends : s.getLast? = some d) (indent : Text) :
    (joinLines (hangingBlock s indent)).getLast? = some d := by
  have visible := bare.ends d ends
  have nonempty : s ≠ [] := by
    rintro rfl
    cases ends
  have pieces := bare.lines_eq nonempty
  obtain ⟨c, more, rest, lines, -⟩ := bare.exists_lines_eq nonempty
  rw [← Text.joinLines_pieces s, ← pieces, lines] at ends
  rw [hangingBlock_of_lines lines]
  rcases List.eq_nil_or_concat' rest with rfl | ⟨front, last, rfl⟩
  · have single := (Text.getLast?_joinLines_iff visible [] (c :: more)).1 ends
    rw [withCarry, List.map_nil, Text.joinLines_singleton]
    exact getLast?_indentLine single visible
  · have last := (Text.getLast?_joinLines_iff visible ((c :: more) :: front) last).1 ends
    rw [withCarry_append, List.map_append]
    exact (Text.getLast?_joinLines_iff visible (_ :: _) _).2 (getLast?_indentLine last visible)

theorem joinLines_hangingBlock (indents : ∀ c ∈ indent, Text.isIndent c = true) :
    Bare (joinLines (hangingBlock s indent)) := by
  by_cases nonempty : s = []
  · rw [nonempty]
    exact ⟨List.not_mem_nil, nofun, nofun⟩
  · refine ⟨fun member => ?_, fun d first => ?_, fun d last => ?_⟩
    · rcases Text.mem_joinLines member with same | ⟨line, inside, inLine⟩
      · cases same
      · have absent : '\r' ∉ indent := fun inIndent => absurd (indents _ inIndent) (by decide)
        exact not_mem_hangingBlock absent
          (fun _ => Text.not_mem_of_mem_lines bare.noReturn) line inside inLine
    · obtain ⟨c, more, rest, lines, visible⟩ := bare.exists_lines_eq nonempty
      have start : [] ++ c :: Text.trimEnd more = [c] ++ Text.trimEnd more := rfl
      rw [hangingBlock_of_lines lines, indentLine_code_cons visible, start,
        Text.joinLines_append_cons] at first
      obtain rfl := Option.some.inj first
      exact visible
    · cases ends : s.getLast? with
      | none => exact absurd (List.getLast?_eq_none_iff.1 ends) nonempty
      | some e =>
          rw [bare.getLast?_hangingBlock ends] at last
          exact bare.ends d (ends.trans last)

theorem lines_joinLines_hangingBlock (indents : ∀ c ∈ indent, Text.isIndent c = true) :
    Text.lines (joinLines (hangingBlock s indent)) = hangingBlock s indent := by
  by_cases nonempty : s = []
  · rw [nonempty]
    rfl
  · have whole : joinLines (hangingBlock s indent) ≠ [] := by
      obtain ⟨d, ends⟩ := Option.ne_none_iff_exists'.1 fun none =>
        nonempty (List.getLast?_eq_none_iff.1 none)
      intro empty
      have last := bare.getLast?_hangingBlock ends indent
      rw [empty] at last
      cases last
    have absent : '\n' ∉ indent := fun inIndent => absurd (indents _ inIndent) (by decide)
    rw [(bare.joinLines_hangingBlock indents).lines_eq whole]
    exact Text.pieces_joinLines (bare.hangingBlock_ne_nil nonempty indent)
      (not_mem_hangingBlock absent fun _ => Text.unbroken_of_mem_lines)

/-- Trimming a text that was moved in takes the indentation off its first line only. -/
theorem trim_indentBlock (indents : ∀ c ∈ indent, Text.isIndent c = true) :
    Text.trim (joinLines (indentBlock s indent)) = joinLines (hangingBlock s indent) := by
  have indentBlank : Text.AllBlank indent := fun c member =>
    Text.isBlank_of_isIndent (indents c member)
  by_cases nonempty : s = []
  · rw [nonempty]
    rfl
  · rw [bare.joinLines_indentBlock nonempty, Text.trim_blanks_append indentBlank,
      (bare.joinLines_hangingBlock indents).trim_eq]

/-- What was moved in and trimmed is moved out again. -/
theorem dedentBody_hangingBlock (indents : ∀ c ∈ indent, Text.isIndent c = true) :
    dedentBody (joinLines (hangingBlock s indent)) (some indent.length) = indentBlock s [] := by
  by_cases nonempty : s = []
  · rw [nonempty]
    rfl
  · have indentBlank : Text.AllBlank indent := fun c member =>
      Text.isBlank_of_isIndent (indents c member)
    obtain ⟨c, more, rest, lines, visible⟩ := bare.exists_lines_eq nonempty
    have carries :=
      (retells_indentLine (List.forall_mem_nil _) .code (c :: more)).carry_scanLine
    have first : dedentLine 0 (.code, indentLine [] (.code, c :: more)) =
        indentLine [] (.code, c :: more) :=
      dedentLine_indentLine .code (c :: more) (List.forall_mem_nil _)
    rw [dedentBody_of_lines ((bare.lines_joinLines_hangingBlock indents).trans
      (hangingBlock_of_lines lines indent)), carries, first,
      withCarry_map (retells_indentLine indentBlank), min?_measured indents, List.map_map,
      ← hangingBlock_nil, hangingBlock_of_lines lines]
    refine congrArg (_ :: ·) (List.map_congr_left fun pair _ => ?_)
    exact dedentLine_indentLine pair.1 pair.2 indents

/-- A text that was moved out is moved in like the old one. -/
theorem indentBlock_joinLines (indent : Text) :
    indentBlock (joinLines (indentBlock s [])) indent = indentBlock s indent := by
  have lines := bare.lines_joinLines_hangingBlock (List.forall_mem_nil _)
  rw [hangingBlock_nil] at lines
  rw [indentBlock, lines, map_indentLine_indentBlock (List.forall_mem_nil _), List.append_nil]

end Bare

end Code

end MigrationSquash
