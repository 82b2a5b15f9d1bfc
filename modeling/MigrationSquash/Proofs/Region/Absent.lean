import MigrationSquash.Proofs.Region.Apart

/-!
# Procedures that a file does not hold

Lines that give way to others bring no procedure into a file, if neither declares it and both
leave the same open and the same blocks to close.  So another body for one procedure does not
bring the other one in, be it that no line declares it or that its block is never closed.
-/

set_option autoImplicit false

namespace MigrationSquash.Code

variable {procedure other : Procedure}

/-- A declared procedure is located if its first block is closed. -/
theorem isSome_locate? {above rest : List Text} {line : Text}
    (clear : Clear procedure .code above) (declared : declares procedure (.code, line) = true) :
    (locate? procedure (above ++ line :: rest)).isSome =
      hasBlock (Mode.code.kindsOfLines (line :: rest)) := by
  have found : findDeclaration? procedure (above ++ line :: rest) = some above.length :=
    findDeclaration?_eq_some_iff.2 ⟨above, line, rest, rfl, rfl, clear, declared⟩
  have block := isSome_firstBlock? (bracesFrom .code above.length (line :: rest))
  rw [bracesFrom_eq_spots, Mode.map_snd_spots] at block
  rw [locate?, found, Option.bind_eq_bind, Option.bind_some, List.drop_left, bracesFrom_eq_spots]
  refine Eq.trans ?_ block
  cases firstBlock? (Carry.code.mode.spots above.length 0 (line :: rest)) <;> rfl

namespace Frame

variable {frame : Frame} {start middle rest : List Text}

theorem exists_of_above_lt (same : start ++ rest = frame.lines)
    (above : frame.above.length < start.length) :
    ∃ between, start = frame.above ++ frame.declaration :: between := by
  obtain ⟨later, first⟩ := frame.region_eq_cons
  rw [lines, first, List.cons_append] at same
  rcases append_cons_cases same with ⟨more, longer, -⟩ | ⟨between, shorter, -⟩
  · rw [longer, List.length_append] at above
    omega
  · exact ⟨between, shorter⟩

theorem declaration_mem (same : start ++ (middle ++ rest) = frame.lines)
    (notAbove : start.length ≤ frame.above.length)
    (notBelow : frame.above.length < (start ++ middle).length) :
    frame.declaration ∈ middle := by
  have place : lineAt frame.lines frame.above.length = frame.declaration :=
    frame.lineAt_declaration
  rw [List.length_append] at notBelow
  have inMiddle : frame.above.length - start.length < middle.length := by omega
  rw [← place, ← same, lineAt, List.getD_eq_getElem?_getD, List.getElem?_append_right notAbove,
    List.getElem?_append_left inMiddle, List.getElem?_eq_getElem inMiddle, Option.getD_some]
  exact List.getElem_mem inMiddle

end Frame

section Swap

variable {start old new rest : List Text} (starts : Mode.code.runLines start = .code)
  (sameMode : Mode.code.runLines new = Mode.code.runLines old)

include starts sameMode in
/-- The block of a procedure declared above closes behind the new lines exactly if it did behind the
old. -/
theorem isSome_locate?_swap {above between : List Text} {declaration : Text}
    (clear : Clear other .code above) (declared : declares other (.code, declaration) = true)
    (front : start = above ++ declaration :: between)
    (sameBlocks : ∀ front back, hasBlock (front ++ (Mode.code.kindsOfLines new ++ back)) =
      hasBlock (front ++ (Mode.code.kindsOfLines old ++ back))) :
    (locate? other (start ++ (new ++ rest))).isSome =
      (locate? other (start ++ (old ++ rest))).isSome := by
  have inCode : Mode.code.runLines (declaration :: between) = .code := by
    have ends : Mode.code.runLines above = .code := clear.runLines
    rwa [front, Mode.runLines_append, ends] at starts
  have block (middle : List Text) : (locate? other (start ++ (middle ++ rest))).isSome =
      hasBlock (Mode.code.kindsOfLines (declaration :: between) ++ (Mode.code.kindsOfLines middle ++
        (Mode.code.runLines middle).kindsOfLines rest)) := by
    rw [front, List.append_assoc, List.cons_append, isSome_locate? clear declared,
      ← List.cons_append, Mode.kindsOfLines_append, inCode, Mode.kindsOfLines_append]
  rw [block new, block old, sameBlocks, sameMode]

variable (oldSilent : ∀ line ∈ old, declares other (.code, line) = false)
  (newSilent : ∀ line ∈ new, declares other (.code, line) = false)
include starts sameMode oldSilent newSilent

/-- Lines that give way to others bring no procedure in. -/
theorem locate?_swap_eq_none
    (sameBlocks : ∀ front back, hasBlock (front ++ (Mode.code.kindsOfLines new ++ back)) =
      hasBlock (front ++ (Mode.code.kindsOfLines old ++ back)))
    (absent : locate? other (start ++ (old ++ rest)) = none) :
    locate? other (start ++ (new ++ rest)) = none := by
  cases located : locate? other (start ++ (new ++ rest)) with
  | none => rfl
  | some bounds =>
      obtain ⟨frame, holds, same, -⟩ := locate?_eq_some_iff.1 located
      have present : (locate? other (start ++ (old ++ rest))).isSome = true := by
        rcases Nat.lt_or_ge frame.above.length start.length with above | notAbove
        · obtain ⟨between, front⟩ := Frame.exists_of_above_lt same above
          rw [← isSome_locate?_swap starts sameMode holds.clear holds.declares front sameBlocks,
            located]
          rfl
        · rcases Nat.lt_or_ge frame.above.length (start ++ new).length with inside | below
          · have declared := holds.declares
            rw [newSilent _ (Frame.declaration_mem same notAbove inside)] at declared
            cases declared
          · rw [← List.append_assoc] at same
            obtain ⟨between, front, back⟩ := Frame.exists_between_of_le same below
            have clear := holds.clear
            rw [front, List.append_assoc] at clear
            have moved := Frame.clear_swap starts sameMode.symm
              (clear_of_silent .code oldSilent) clear
            have found : locate? other (start ++ (old ++ rest)) = some _ :=
              locate?_eq_some_iff.2 ⟨_, holds.withAbove moved, by
                rw [Frame.lines, back]
                simp [Frame.region], rfl⟩
            rw [found]
            rfl
      rw [absent] at present
      cases present

/-- A procedure below lines that give way to others keeps its text. -/
theorem extract_swap {bounds : Bounds}
    (located : locate? other (start ++ (old ++ rest)) = some bounds)
    (below : start.length ≤ bounds.declaration) :
    (extract other (start ++ (new ++ rest))).text =
      (extract other (start ++ (old ++ rest))).text := by
  obtain ⟨frame, holds, same, rfl⟩ := locate?_eq_some_iff.1 located
  have notInside : (start ++ old).length ≤ frame.above.length := by
    refine Nat.not_lt.1 fun inside => ?_
    have declared := holds.declares
    rw [oldSilent _ (Frame.declaration_mem same below inside)] at declared
    cases declared
  have whole := same
  rw [← List.append_assoc] at same
  obtain ⟨between, front, back⟩ := Frame.exists_between_of_le same notInside
  have clear := holds.clear
  rw [front, List.append_assoc] at clear
  have moved := holds.withAbove
    (Frame.clear_swap starts sameMode (clear_of_silent .code newSilent) clear)
  have lines : start ++ (new ++ rest) =
      Frame.lines { frame with above := start ++ (new ++ between) } := by
    rw [Frame.lines, back]
    simp [Frame.region]
  rw [whole, lines, extract_lines holds, extract_lines moved]
  rfl

end Swap

/-- Another body for one procedure does not bring the other one in. -/
theorem Frame.Holds.locate?_filled_eq_none {frame : Frame} (holds : frame.Holds procedure)
    (unsigned : frame.Unsigned other) {body : Text}
    (filled : (frame.filled body).Holds procedure) (silent : Silent other body)
    (absent : locate? other frame.lines = none) :
    locate? other (frame.filled body).lines = none := by
  have oldSilent : ∀ line ∈ frame.region, Code.declares other (.code, line) = false :=
    fun line member => declares_of_not_signs (unsigned line member) .code
  have sameMode := Frame.runLines_region_filled holds filled
  refine locate?_swap_eq_none holds.clear.runLines sameMode oldSilent (unsigned.filled silent) ?_
    absent
  intro front back
  have swap := hasBlock_swap holds.balanced filled.balanced
    (front ++ Mode.code.kindsOfLines (frame.head ++ [frame.before]))
    (.closing :: (Mode.code.kinds frame.after ++ back))
  rw [Frame.kindsOfLines_region holds, Frame.kindsOfLines_region_filled filled]
  simpa only [List.append_assoc, List.cons_append] using swap

/-- A closed body is found where it was written, and the procedure that the file does not hold is
still not found. -/
theorem extract_replace_one {frame : Frame} (holds : frame.Holds procedure)
    (absent : locate? other frame.lines = none) (signed : frame.Signed procedure)
    (unsigned : frame.Unsigned other) {body : Text} (closed : Closed body)
    (silent : Silent other body) :
    let replaced := replace procedure frame.lines body
    (extract procedure replaced).text =
        Text.trim (Text.joinLines (indentBlock body frame.bodyIndent)) ∧
      (locate? procedure replaced).isSome = true ∧ locate? other replaced = none ∧
      totalDelta replaced = totalDelta frame.lines := by
  have filled := holds.filled signed closed
  refine ⟨?_, ?_, ?_, ?_⟩
  · rw [replace_lines holds, extract_lines filled]
    exact trim_joinLines_enclosed (Text.allBlank_indentation _) _
  · rw [replace_lines holds, filled.locate?_eq]
    rfl
  · rw [replace_lines holds]
    exact holds.locate?_filled_eq_none unsigned filled silent absent
  · rw [replace_lines holds, Frame.totalDelta_filled holds filled]

end MigrationSquash.Code
