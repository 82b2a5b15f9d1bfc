import MigrationSquash.Proofs.Merge.Exact

/-!
# Blocks in a merged procedure

The body that blocks are joined to is moved in block by block: each block keeps its lines
together.  So each of them stands in the text of the procedure that the body is written into, and
none of them stands in an empty one.
-/

set_option autoImplicit false

namespace MigrationSquash

open Code (Closed Mode extract indentBlock indentLine withCarry)
open Text (joinLines Unbroken)

namespace Text

theorem exists_dropWhile_append {drops : Char → Bool} {middle : Text} (front back : Text)
    (kept : middle.dropWhile drops = middle) :
    middle = [] ∨
      ∃ left, (front ++ (middle ++ back)).dropWhile drops = left ++ (middle ++ back) := by
  cases middle with
  | nil => exact Or.inl rfl
  | cons c rest =>
      right
      have starts : drops c = false := by
        cases dropped : drops c with
        | false => rfl
        | true =>
            rw [List.dropWhile_cons_of_pos dropped] at kept
            have shorter := List.length_dropWhile_le drops rest
            rw [kept, List.length_cons] at shorter
            omega
      rw [List.dropWhile_append]
      split
      · exact ⟨[], by rw [List.cons_append, List.dropWhile_cons_of_neg (by simp [starts])]; rfl⟩
      · exact ⟨_, rfl⟩

theorem trimStart_trim (s : Text) : trimStart (trim s) = trim s := by
  obtain ⟨back, split, -⟩ := trimEnd_append_blanks (trimStart s)
  cases trimmed : trim s with
  | nil => rfl
  | cons c rest =>
      change trimEnd (trimStart s) = c :: rest at trimmed
      have visible : isBlank c ≠ true := by
        rw [trimmed, List.cons_append] at split
        have nonempty : s.dropWhile isBlank ≠ [] := by
          change trimStart s ≠ []
          rw [split]
          exact List.cons_ne_nil _ _
        have head : isBlank ((trimStart s).head nonempty) = false :=
          List.head_dropWhile_not isBlank nonempty
        simp only [split, List.head_cons] at head
        simp [head]
      exact List.dropWhile_cons_of_neg visible

theorem trim_infix {s t : Text} (part : s <:+: t) : trim s <:+: trim t := by
  obtain ⟨before, behind, whole⟩ := part
  obtain ⟨front, back, split, -⟩ := blanks_append_trim s
  have around : t = (before ++ front) ++ (trim s ++ (back ++ behind)) := by
    rw [← whole]
    nth_rewrite 1 [split]
    simp
  rcases exists_dropWhile_append (before ++ front) (back ++ behind) (trimStart_trim s) with
    empty | ⟨left, starts⟩
  · rw [empty]
    exact List.nil_infix
  · change trimStart _ = _ at starts
    have reversed : (trim s).reverse.dropWhile isBlank = (trim s).reverse := by
      have ends := trimEnd_trimEnd (trimStart s)
      rw [← List.reverse_inj, List.reverse_reverse]
      exact ends
    rcases exists_dropWhile_append (back ++ behind).reverse left.reverse reversed with
      empty | ⟨right, ends⟩
    · rw [List.reverse_eq_nil_iff.1 empty]
      exact List.nil_infix
    · refine ⟨left, right.reverse, ?_⟩
      have outer : trim (before ++ front ++ (trim s ++ (back ++ behind))) =
          trimEnd (left ++ (trim s ++ (back ++ behind))) := congrArg trimEnd starts
      rw [around, outer, trimEnd]
      have mirrored : (left ++ (trim s ++ (back ++ behind))).reverse =
          (back ++ behind).reverse ++ ((trim s).reverse ++ left.reverse) := by simp
      rw [mirrored, ends]
      simp

theorem joinLines_infix {lines : List Text} (front back : List Text) :
    joinLines lines <:+: joinLines (front ++ (lines ++ back)) := by
  by_cases empty : lines = []
  · rw [empty]
    exact List.nil_infix
  have inner : joinLines lines <:+: joinLines (lines ++ back) := by
    by_cases last : back = []
    · simp [last]
    · rw [joinLines_append _ _ empty last]
      exact List.infix_append' [] _ _
  by_cases first : front = []
  · rw [first]
    exact inner
  · rw [joinLines_append _ _ first (by simp [empty])]
    exact inner.trans ⟨joinLines front ++ ['\n'], [], by simp⟩

/-- A text whose last line ends with a line feed that follows. -/
def Ended (s : Text) : Prop := ∀ t, lines (s ++ '\n' :: t) = lines s ++ lines t

theorem ended_joinLines {front : List Text} {last : Text}
    (unbroken : ∀ line ∈ front ++ [last], Unbroken line) (nonempty : last ≠ [])
    (noReturn : dropReturn last = last) : Ended (joinLines (front ++ [last])) := by
  have lastUnbroken : Unbroken last := unbroken last (by simp)
  have frontUnbroken : ∀ line ∈ front, Unbroken line := fun line member =>
    unbroken line (List.mem_append_left _ member)
  intro t
  rw [lines_joinLines_append front last frontUnbroken, lines_of_unbroken lastUnbroken nonempty]
  induction front with
  | nil => rw [List.nil_append, joinLines_singleton, lines_append_feed t lastUnbroken, noReturn]; rfl
  | cons line rest ih =>
      have later := ih (fun other member => unbroken other (List.mem_cons_of_mem _ member))
        fun other member => frontUnbroken other (List.mem_cons_of_mem _ member)
      have joined := joinLines_append [line] (rest ++ [last]) (by simp) (by simp)
      rw [List.singleton_append, joinLines_singleton] at joined
      rw [List.cons_append, joined, List.append_assoc, List.cons_append,
        lines_append_feed _ (frontUnbroken line List.mem_cons_self), later]
      rfl

end Text

namespace Code

variable {indent : Text}

theorem indentBlock_feed (s : Text) : indentBlock ('\n' :: s) indent = [] :: indentBlock s indent :=
  rfl

/-- Texts below each other are moved in one after the other. -/
theorem Closed.indentBlock_append_feed {s : Text} (closed : Closed s) (ended : Text.Ended s)
    (t : Text) :
    indentBlock (s ++ '\n' :: t) indent = indentBlock s indent ++ indentBlock t indent := by
  have carried : (Carry.code.mode.runLines (Text.lines s)).carry = .code :=
    (Mode.code.kindsOfLines_lines s).2.trans closed.ends
  rw [indentBlock, ended, withCarry_append, carried, List.map_append]
  rfl

/-- Each of the texts that were joined keeps its lines together. -/
theorem exists_indentBlock_join (indent : Text) {texts : List Text}
    (all : ∀ s ∈ texts, Closed s ∧ Text.Ended s) {s : Text} (member : s ∈ texts) :
    ∃ front back, indentBlock (Text.join ['\n', '\n'] texts) indent =
      front ++ (indentBlock s indent ++ back) := by
  induction texts with
  | nil => cases member
  | cons first rest ih =>
      obtain ⟨closed, ended⟩ := all first List.mem_cons_self
      cases rest with
      | nil =>
          obtain rfl := List.mem_singleton.1 member
          exact ⟨[], [], by simp [Text.join]⟩
      | cons next others =>
          have joined : indentBlock (Text.join ['\n', '\n'] (first :: next :: others)) indent =
              indentBlock first indent ++
                [] :: indentBlock (Text.join ['\n', '\n'] (next :: others)) indent := by
            rw [← indentBlock_feed, ← closed.indentBlock_append_feed ended]
            simp [Text.join]
          rcases List.mem_cons.1 member with rfl | later
          · exact ⟨[], _, joined⟩
          · obtain ⟨front, back, split⟩ :=
              ih (fun t inside => all t (List.mem_cons_of_mem _ inside)) later
            exact ⟨indentBlock first indent ++ [] :: front, back, by rw [joined, split]; simp⟩

end Code

namespace Block

/-- The lines of the block stand in the text, moved in behind some blanks. -/
def StandsIn (block : Block) (s : Text) : Prop :=
  ∃ indent, Text.AllBlank indent ∧ Text.trim (joinLines (indentBlock block.text indent)) <:+: s

variable {id : MigrationId} {region : Code.Region}

theorem ended_wrap (oneLine : '\n' ∉ id.toText) : Text.Ended (wrap id region).text :=
  have ended : Text.Ended (joinLines
      ((['{'] :: (Text.indentStep ++ provenance id) :: bodyLines region) ++ [['}']])) :=
    Text.ended_joinLines (unbroken_lines oneLine) (by decide) (by decide)
  ended

theorem mem_indentBlock_wrap (indent : Text) :
    indent ++ ['{'] ∈ indentBlock (wrap id region).text indent := by
  have first : Text.lines (wrap id region).text = ['{'] :: Text.lines (joinLines
      ((Text.indentStep ++ provenance id) :: bodyLines region ++ [['}']])) := by
    have brace : Unbroken ['{'] := by
      unfold Unbroken
      decide
    exact Text.lines_append_feed _ brace
  rw [indentBlock, first, withCarry, List.map_cons]
  exact List.mem_cons_self

theorem not_standsIn_nil : ¬ (wrap id region).StandsIn [] := by
  rintro ⟨indent, -, part⟩
  have empty := List.infix_nil.1 part
  have member : '{' ∈ joinLines (indentBlock (wrap id region).text indent) :=
    Text.mem_joinLines_of_mem (mem_indentBlock_wrap indent) (by simp)
  obtain ⟨front, back, split, frontBlank, backBlank⟩ :=
    Text.blanks_append_trim (joinLines (indentBlock (wrap id region).text indent))
  rw [empty, List.nil_append] at split
  rw [split] at member
  have blank : Text.isBlank '{' = true :=
    (List.mem_append.1 member).elim (frontBlank '{') (backBlank '{')
  exact absurd blank (by decide)

end Block

namespace Separable

variable {first : Migration} {rest : List Migration} {procedure : Procedure}

/-- Each body stands in the text that the merged body is moved in to. -/
theorem standsIn_indentBlock (separable : Separable first rest)
    (oneLine : ∀ migration ∈ first :: rest, migration.OneLine) {indent : Text}
    (indentBlank : Text.AllBlank indent) {migration : Migration}
    (member : migration ∈ first :: rest) (contributes : migration.contributes procedure = true) :
    (migration.wrapped procedure).StandsIn (Text.trim (joinLines
      (indentBlock (mergedProcedure procedure (first :: rest)).text indent))) := by
  have all : ∀ s ∈ (mergedProcedure procedure (first :: rest)).blocks.map (·.text),
      Closed s ∧ Text.Ended s := by
    intro s inside
    obtain ⟨other, given, rfl⟩ := exists_of_mem_blocks inside
    exact ⟨Block.closed_wrap (separable.oneLineIds other given)
        (Code.closed_extract (oneLine other given)),
      Block.ended_wrap (separable.oneLineIds other given)⟩
  have inBlocks : (migration.wrapped procedure).text ∈
      (mergedProcedure procedure (first :: rest)).blocks.map (·.text) := by
    rw [mergedProcedure, blocks_aggregate]
    exact List.mem_map_of_mem (List.mem_map_of_mem
      (List.mem_filter.2 ⟨mem_arrange_iff.2 member, contributes⟩))
  obtain ⟨front, back, split⟩ := Code.exists_indentBlock_join indent all inBlocks
  refine ⟨indent, indentBlank, ?_⟩
  rw [Aggregate.text, split]
  exact Text.trim_infix (Text.joinLines_infix front back)

/-- A procedure with bodies holds all of them after merging exactly if it was located. -/
theorem standsIn_merged_iff (separable : Separable first rest)
    (oneLine : ∀ migration ∈ first :: rest, migration.OneLine) {migration : Migration}
    (member : migration ∈ first :: rest) (contributes : migration.contributes procedure = true) :
    (migration.wrapped procedure).StandsIn (extract procedure
        (replaceMerged .down (first :: rest)
          (replaceMerged .up (first :: rest) first.source.lines))).text ↔
      (Code.locate? procedure first.source.lines).isSome = true := by
  have fills := separable.fills_merged oneLine
  cases located : Code.locate? procedure first.source.lines with
  | none =>
      rw [extract, Code.extract?, fills.absent procedure located]
      exact ⟨fun stands => absurd stands Block.not_standsIn_nil, fun found => by cases found⟩
  | some bounds =>
      rw [fills.text procedure bounds located]
      exact ⟨fun _ => rfl, fun _ => separable.standsIn_indentBlock oneLine
        (Code.allBlank_bodyIndent bounds _) member contributes⟩

end Separable

end MigrationSquash
