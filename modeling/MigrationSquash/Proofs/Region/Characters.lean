import MigrationSquash.Proofs.Region.Imports
import MigrationSquash.Proofs.Text.Source

/-!
# Characters of changed lines

Replacing a body and placing imports write braces, blanks and characters that they were given, and
put nothing in front of a file.  So lines without line breaks stay such lines, and a file that
starts without a byte-order mark still does.
-/

set_option autoImplicit false

namespace MigrationSquash

open Text (Unbroken Unmarked)

namespace Text

/-- A line that does not start with a byte-order mark. -/
def StartsPlain (line : Text) : Prop := line.head? ≠ some byteOrderMark

namespace StartsPlain

variable {s t : Text}

theorem append (first : StartsPlain s) (second : StartsPlain t) : StartsPlain (s ++ t) := by
  cases s with
  | nil => exact second
  | cons c rest => exact first

theorem of_append (whole : StartsPlain (s ++ t)) : StartsPlain s := by
  cases s with
  | nil => exact fun start => by cases start
  | cons c rest => exact whole

theorem trimEnd (plain : StartsPlain s) : StartsPlain (Text.trimEnd s) := by
  obtain ⟨blanks, split, -⟩ := trimEnd_append_blanks s
  rw [split] at plain
  exact plain.of_append

theorem of_allBlank (allBlank : AllBlank s) : StartsPlain s := by
  intro start
  have blank := allBlank _ (List.mem_of_head? start)
  exact absurd blank (by decide)

end StartsPlain

theorem unmarked_cons {line : Text} {rest : List Text} :
    Unmarked (line :: rest) ↔ StartsPlain line := by
  simp [Unmarked, StartsPlain]

theorem unmarked_append {front : List Text} (nonempty : front ≠ []) (rest : List Text) :
    Unmarked (front ++ rest) ↔ Unmarked front := by
  cases front with
  | nil => exact absurd rfl nonempty
  | cons line more => rw [List.cons_append, unmarked_cons, unmarked_cons]

end Text

namespace Code

variable {procedure : Procedure}

theorem mem_indentation {line : Text} {c : Char} (member : c ∈ Text.indentation line) : c ∈ line :=
  (List.takeWhile_sublist _).subset member

namespace Frame

variable {frame : Frame}

theorem mem_lines_of_mem_region {line : Text} (member : line ∈ frame.region) :
    line ∈ frame.lines :=
  List.mem_append_right _ (List.mem_append_left _ member)

theorem declaration_mem_lines (frame : Frame) : frame.declaration ∈ frame.lines := by
  obtain ⟨rest, start⟩ := frame.region_eq_cons
  exact mem_lines_of_mem_region (by rw [start]; exact List.mem_cons_self)

/-- What is written in place of a procedure brings in the characters of the body, braces and
blanks, and no others. -/
theorem not_mem_filled {c : Char} (noMark : c ∉ ['{', '}', ' ']) {body : Text}
    (absent : ∀ line ∈ frame.lines, c ∉ line) (absentBody : ∀ line ∈ Text.lines body, c ∉ line) :
    ∀ line ∈ (frame.filled body).lines, c ∉ line := by
  have indent : c ∉ Text.indentation frame.declaration := fun inside =>
    absent _ frame.declaration_mem_lines (mem_indentation inside)
  have step : c ∉ Text.indentStep := by
    rw [show Text.indentStep = [' ', ' ', ' ', ' '] from rfl]
    simpa using fun same : c = ' ' => noMark (by simp [same])
  have deeper : c ∉ frame.bodyIndent := fun inside =>
    (List.mem_append.1 inside).elim indent step
  have before : c ∉ frame.before := by
    obtain ⟨rest, inRegion⟩ := frame.mem_region_opening
    exact fun inside => absent _ (mem_lines_of_mem_region inRegion) (List.mem_append_left _ inside)
  have after : c ∉ frame.after := by
    obtain ⟨start, inRegion⟩ := frame.mem_region_closing
    exact fun inside => absent _ (mem_lines_of_mem_region inRegion)
      (List.mem_append_right _ (List.mem_cons_of_mem _ inside))
  have rewritten : c ∉ frame.rewrittenBefore := by
    unfold rewrittenBefore
    split
    · exact indent
    · intro inside
      rcases List.mem_append.1 inside with inBefore | inBlank
      · exact not_mem_trimEnd before inBefore
      · exact noMark (by rw [List.mem_singleton.1 inBlank]; simp)
  have isBrace : c ≠ '{' ∧ c ≠ '}' := by
    constructor <;> rintro rfl <;> simp at noMark
  intro line member
  simp only [lines, region, filled, enclose, List.mem_append, List.mem_cons, List.mem_map,
    List.not_mem_nil, or_false] at member
  rcases member with inAbove | (⟨old, inHead, rfl⟩ | rfl | inBody | rfl) | inBelow
  · exact absent line (List.mem_append_left _ inAbove)
  · exact not_mem_trimEnd (absent old (mem_lines_of_mem_region (List.mem_append_left _ inHead)))
  · simpa [isBrace.1] using rewritten
  · exact not_mem_indentBlock deeper absentBody line inBody
  · simpa [isBrace.2, indent] using not_mem_trimEnd after
  · exact absent line (List.mem_append_right _ (List.mem_append_right _ inBelow))

/-- What is written in place of a procedure brings in no line that ends in a given blank, unless
the body does. -/
theorem getLast?_filled {c : Char} (blank : Text.isBlank c = true) {body : Text}
    (ends : ∀ line ∈ frame.lines, line.getLast? ≠ some c)
    (endsBody : ∀ line ∈ Text.lines body, line.getLast? ≠ some c) :
    ∀ line ∈ (frame.filled body).lines, line.getLast? ≠ some c := by
  have noBrace : '{' ≠ c ∧ '}' ≠ c := by
    constructor <;> rintro rfl <;> exact absurd blank (by decide)
  intro line member
  simp only [lines, region, filled, enclose, List.mem_append, List.mem_cons, List.mem_map,
    List.not_mem_nil, or_false] at member
  rcases member with inAbove | (⟨old, inHead, rfl⟩ | rfl | inBody | rfl) | inBelow
  · exact ends line (List.mem_append_left _ inAbove)
  · exact Text.getLast?_trimEnd_ne blank old
  · simpa using noBrace.1
  · exact getLast?_indentBlock_ne blank endsBody line inBody
  · rw [List.getLast?_append, List.getLast?_cons]
    cases stop : (Text.trimEnd frame.after).getLast? with
    | none => simpa using noBrace.2
    | some d =>
        have other := Text.getLast?_trimEnd_ne blank frame.after
        rw [stop] at other
        simpa using other
  · exact ends line (List.mem_append_right _ (List.mem_append_right _ inBelow))

theorem unmarked_filled (body : Text) (unmarked : Unmarked frame.lines) :
    Unmarked (frame.filled body).lines := by
  cases above : frame.above with
  | cons line rest =>
      rw [lines, above] at unmarked
      rw [lines, show (frame.filled body).above = line :: rest from above]
      exact unmarked
  | nil =>
      rw [lines, above, List.nil_append] at unmarked
      rw [lines, show (frame.filled body).above = [] from above, List.nil_append]
      cases head : frame.head with
      | cons line rest =>
          rw [region, head, List.append_assoc] at unmarked
          rw [region, show (frame.filled body).head = (line :: rest).map Text.trimEnd by
            rw [← head]; rfl, List.append_assoc]
          exact Text.unmarked_cons.2 (Text.StartsPlain.trimEnd (Text.unmarked_cons.1 unmarked))
      | nil =>
          obtain ⟨first, rest, -, whole⟩ :=
            exists_eq_enclose_append frame.before frame.inner frame.last frame.after frame.below
          rw [region, head, List.nil_append, whole] at unmarked
          have before : Text.StartsPlain frame.before := (Text.unmarked_cons.1 unmarked).of_append
          have rewritten : Text.StartsPlain frame.rewrittenBefore := by
            unfold rewrittenBefore
            split
            · exact .of_allBlank (Text.allBlank_indentation _)
            · exact before.trimEnd.append (by unfold Text.StartsPlain; decide)
          rw [region, show (frame.filled body).head = [] by simp [filled, head]]
          exact Text.unmarked_cons.2 (rewritten.append (by unfold Text.StartsPlain; decide))

end Frame

theorem not_mem_replace {c : Char} (noMark : c ∉ ['{', '}', ' ']) {lines : List Text} {body : Text}
    (absent : ∀ line ∈ lines, c ∉ line) (absentBody : ∀ line ∈ Text.lines body, c ∉ line) :
    ∀ line ∈ replace procedure lines body, c ∉ line := by
  cases located : locate? procedure lines with
  | none =>
      rw [replace, located]
      exact absent
  | some bounds =>
      obtain ⟨frame, holds, rfl, -⟩ := locate?_eq_some_iff.1 located
      rw [replace_lines holds]
      exact Frame.not_mem_filled noMark absent absentBody

theorem getLast?_replace {c : Char} (blank : Text.isBlank c = true) {lines : List Text} {body : Text}
    (ends : ∀ line ∈ lines, line.getLast? ≠ some c)
    (endsBody : ∀ line ∈ Text.lines body, line.getLast? ≠ some c) :
    ∀ line ∈ replace procedure lines body, line.getLast? ≠ some c := by
  cases located : locate? procedure lines with
  | none =>
      rw [replace, located]
      exact ends
  | some bounds =>
      obtain ⟨frame, holds, rfl, -⟩ := locate?_eq_some_iff.1 located
      rw [replace_lines holds]
      exact Frame.getLast?_filled blank ends endsBody

theorem unmarked_replace {lines : List Text} (body : Text) (unmarked : Unmarked lines) :
    Unmarked (replace procedure lines body) := by
  cases located : locate? procedure lines with
  | none =>
      rw [replace, located]
      exact unmarked
  | some bounds =>
      obtain ⟨frame, holds, rfl, -⟩ := locate?_eq_some_iff.1 located
      rw [replace_lines holds]
      exact Frame.unmarked_filled body unmarked

theorem mem_placement_indent {lines : List Text} {c : Char}
    (member : c ∈ (placement lines).indent) : c = ' ' ∨ ∃ line ∈ lines, c ∈ line := by
  have own (number : Nat) (inside : c ∈ Text.indentation (lines.getD number [])) :
      ∃ line ∈ lines, c ∈ line := by
    rw [List.getD_eq_getElem?_getD] at inside
    cases found : lines[number]? with
    | none =>
        rw [found] at inside
        cases inside
    | some line =>
        rw [found] at inside
        exact ⟨line, List.mem_of_getElem? found, mem_indentation inside⟩
  have deeper (number : Nat)
      (inside : c ∈ Text.indentation (lines.getD number []) ++ Text.indentStep) :
      c = ' ' ∨ ∃ line ∈ lines, c ∈ line := by
    rcases List.mem_append.1 inside with inOwn | step
    · exact Or.inr (own number inOwn)
    · exact Or.inl (by simpa [Text.indentStep] using step)
  unfold placement at member
  split at member
  · cases member
  · dsimp only at member
    split at member
    · exact Or.inr (own _ member)
    · exact deeper _ member
    · exact deeper _ member

theorem not_mem_placeImports {c : Char} (noBlank : c ≠ ' ') {lines : List Text}
    {imports : ImportSet} (absent : ∀ line ∈ lines, c ∉ line)
    (absentImports : ∀ item ∈ imports.items, c ∉ item) :
    ∀ line ∈ placeImports lines imports, c ∉ line := by
  obtain ⟨old, new, rest, whole, changed, -, written, -⟩ := exists_placeImports_eq lines imports
  have indent : c ∉ (placement lines).indent := by
    intro inside
    rcases mem_placement_indent inside with blank | ⟨line, member, inLine⟩
    · exact noBlank blank
    · exact absent line member inLine
  intro line member
  rw [changed] at member
  rcases List.mem_append.1 member with above | behind
  · exact absent line (List.mem_of_mem_take above)
  · rcases List.mem_append.1 behind with inNew | below
    · rcases written line inNew with rfl | ⟨item, inside, rfl⟩
      · exact List.not_mem_nil
      · intro inLine
        exact (List.mem_append.1 inLine).elim indent (absentImports item inside)
    · apply absent
      rw [whole]
      exact List.mem_append_right _ (List.mem_append_right _ below)

theorem exists_of_afterKeyword {word s target : Text}
    (found : afterKeyword? word s = some target) : ∃ rest, s = word ++ rest := by
  unfold afterKeyword? at found
  split at found
  next c rest split_ => exact ⟨c :: rest, Text.after?_eq_some_iff.1 split_⟩
  next => cases found

/-- A line that is taken for an import starts with one of two keywords. -/
theorem exists_keyword_of_isImport {line : Text} (directive : isImport line = true) :
    ∃ word ∈ ["global".toList, "using".toList], ∃ rest, Text.trimStart line = word ++ rest := by
  unfold isImport at directive
  dsimp only at directive
  cases isGlobal : afterKeyword? "global".toList (Text.trimStart line) with
  | some target => exact ⟨_, by simp, exists_of_afterKeyword isGlobal⟩
  | none =>
      rw [isGlobal, Option.getD_none] at directive
      cases isUsing : afterKeyword? "using".toList (Text.trimStart line) with
      | some target => exact ⟨_, by simp, exists_of_afterKeyword isUsing⟩
      | none =>
          rw [isUsing] at directive
          cases directive

theorem startsPlain_of_isImport {line : Text} (directive : isImport line = true) :
    Text.StartsPlain (Text.trim line) := by
  obtain ⟨word, keyword, rest, split⟩ := exists_keyword_of_isImport directive
  apply Text.StartsPlain.trimEnd
  rw [split]
  have plain : ∀ word ∈ ["global".toList, "using".toList],
      word ≠ [] ∧ word.head? ≠ some Text.byteOrderMark := by decide
  cases word with
  | nil => exact absurd rfl (plain [] keyword).1
  | cons c more => exact (plain _ keyword).2

theorem unmarked_placeImports {lines : List Text} {imports : ImportSet}
    (unmarked : Unmarked lines) (plain : ∀ item ∈ imports.items, Text.StartsPlain item) :
    Unmarked (placeImports lines imports) := by
  obtain ⟨old, new, rest, whole, changed, -, written, nothing⟩ :=
    exists_placeImports_eq lines imports
  rw [changed]
  by_cases top : lines.take (placement lines).line = []
  · rw [top, List.nil_append] at whole ⊢
    cases new with
    | nil =>
        rw [nothing rfl] at whole
        exact whole ▸ unmarked
    | cons line more =>
        rw [List.cons_append, Text.unmarked_cons]
        rcases written line List.mem_cons_self with rfl | ⟨item, inside, rfl⟩
        · exact fun start => by cases start
        · exact Text.StartsPlain.append
            (.of_allBlank (allBlank_placement_indent lines)) (plain item inside)
  · rw [whole, Text.unmarked_append top] at unmarked
    rwa [Text.unmarked_append top]

end Code

end MigrationSquash
