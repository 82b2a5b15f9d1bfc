import MigrationSquash.Proofs.Region.Apart

/-!
# Line ranges of two procedures

The body of a procedure opens at the first brace that opens a block from the declaring line on,
wherever the declaration ends.  So the range of a procedure that is declared above another one
ends before that one exactly if the lines above suffice to locate it.  A procedure with a block of
its own, opened at the depth of its signature, fulfils this: the other signature stands at that
depth again, which is reached only behind the block.
-/

set_option autoImplicit false

namespace MigrationSquash.Code

variable {first second : Procedure}

/-- A procedure is located in the lines above a number exactly if its block closes there. -/
theorem locate?_take_eq_some_iff {lines : List Text} {number : Nat} {bounds : Bounds} :
    locate? first (lines.take number) = some bounds ↔
      locate? first lines = some bounds ∧ bounds.closing.line < number := by
  constructor
  · intro located
    obtain ⟨frame, holds, start, rfl⟩ := locate?_eq_some_iff.1 located
    refine ⟨locate?_eq_some_iff.2 ⟨{ frame with below := frame.below ++ lines.drop number },
      holds.withBelow _, ?_, rfl⟩, ?_⟩
    · have whole := List.take_append_drop number lines
      rw [start] at whole
      refine whole.symm.trans ?_
      simp [Frame.lines, Frame.region]
    · have short : (lines.take number).length ≤ number := List.length_take_le _ _
      rw [start] at short
      simp only [Frame.lines, List.length_append, Frame.length_region] at short
      change frame.above.length + frame.head.length + frame.inner.length < number
      omega
  · rintro ⟨located, above⟩
    obtain ⟨frame, holds, rfl, rfl⟩ := locate?_eq_some_iff.1 located
    have fits : (frame.above ++ frame.region).length ≤ number := by
      change frame.above.length + frame.head.length + frame.inner.length < number at above
      rw [List.length_append, Frame.length_region]
      omega
    refine locate?_eq_some_iff.2 ⟨{ frame with
      below := frame.below.take (number - (frame.above ++ frame.region).length) },
      holds.withBelow _, ?_, rfl⟩
    rw [Frame.lines, ← List.append_assoc, List.take_append, List.take_of_length_le fits,
      List.append_assoc]
    rfl

/-- How deep in blocks a place of a file is. -/
def depthAt (lines : List Text) (spot : Spot) : Int :=
  BraceKind.balance (Mode.code.kindsOfLines (lines.take spot.line ++ [beforeSpot lines spot]))

/-- Where the signature on the declaring line of a procedure starts. -/
def Bounds.signature (procedure : Procedure) (lines : List Text) (bounds : Bounds) : Spot :=
  ⟨bounds.declaration,
    ((procedure.signature? (lineAt lines bounds.declaration)).map (·.1)).getD 0⟩

/-- The first procedure has a block of its own above the second one: it opens at the depth of the
signature and above the second declaration, which stands at the same depth, and no block is closed
on the line of that declaration before the signature. -/
structure OwnBlock (first second : Procedure) (lines : List Text) (bounds others : Bounds) :
    Prop where
  own : depthAt lines bounds.opening = depthAt lines (bounds.signature first lines)
  opensAbove : bounds.opening.line < others.declaration
  sameDepth :
    depthAt lines (bounds.signature first lines) = depthAt lines (others.signature second lines)
  noneClosed :
    .closing ∉ Mode.code.kinds (beforeSpot lines (others.signature second lines))

theorem kindsOfLines_concat_append (mode : Mode) (above : List Text) (left right : Text)
    (below : List Text) :
    ∃ more, mode.kindsOfLines (above ++ (left ++ right) :: below) =
      mode.kindsOfLines (above ++ [left]) ++ more := by
  refine ⟨((mode.runLines above).run left).kinds right ++
    ((mode.runLines above).run (left ++ right)).carry.mode.kindsOfLines below, ?_⟩
  rw [Mode.kindsOfLines_append, Mode.kindsOfLines_append, Mode.kindsOfLines_cons,
    Mode.kindsOfLines_cons, Mode.kinds_append]
  simp only [Mode.kindsOfLines_nil, List.append_nil, List.append_assoc]

theorem kindsOfLines_append_brace {mode : Mode} {above : List Text} {before : Text}
    (kind : BraceKind) (after : Text) (below : List Text)
    (inCode : ((mode.runLines above).run before).isCode = true) :
    mode.kindsOfLines (above ++ (before ++ kind.char :: after) :: below) =
      mode.kindsOfLines (above ++ [before]) ++ kind :: Mode.code.kindsOfLines (after :: below) := by
  have places := Mode.spots_append_brace 0 0 kind after below inCode
  have kinds := congrArg (List.map (·.2)) places
  simp only [List.map_append, List.map_cons, Mode.map_snd_spots] at kinds
  exact kinds

theorem runLines_append_brace {mode : Mode} {above : List Text} {before : Text}
    (kind : BraceKind) (after : Text) (below : List Text)
    (inCode : ((mode.runLines above).run before).isCode = true) :
    mode.runLines (above ++ (before ++ kind.char :: after) :: below) =
      Mode.code.runLines (after :: below) := by
  rw [Mode.runLines_append, Mode.runLines_cons, Mode.run_append_brace kind after inCode]
  rfl

namespace Frame

variable {frame : Frame}

theorem depthAt_opening :
    depthAt frame.lines frame.opening =
      BraceKind.balance (Mode.code.kindsOfLines (frame.above ++ frame.head ++ [frame.before])) := by
  obtain ⟨line, rest, -, whole, number⟩ := frame.lines_eq_opening
  rw [depthAt, beforeSpot_opening, whole, ← number, List.take_left]

/-- The braces of a block that stand before a place in it close no more than they open, unless the
block was closed on the line of the place. -/
theorem balance_before_nonneg (holds : frame.Holds first) {number : Nat} {left right : Text}
    (inBlock : number ≤ frame.inner.length)
    (cut : lineAt (frame.inner ++ (frame.last ++ '}' :: frame.after) :: frame.below) number =
      left ++ right)
    (starts : Mode.code.runLines (frame.inner.take number) = .code)
    (noneClosed : .closing ∉ Mode.code.kinds left) :
    0 ≤ BraceKind.balance (Mode.code.kindsOfLines (frame.inner.take number ++ [left])) := by
  have balanced := holds.balanced
  by_cases inside : number < frame.inner.length
  · -- the line is one of those between the lines of the braces
    have innerSplit : frame.inner =
        frame.inner.take number ++ (left ++ right) :: frame.inner.drop (number + 1) := by
      rw [← cut, lineAt, List.getD_eq_getElem?_getD, List.getElem?_append_left inside,
        List.getElem?_eq_getElem inside, Option.getD_some, ← List.drop_eq_getElem_cons inside,
        List.take_append_drop]
    rw [pieces, innerSplit, List.append_assoc, List.cons_append] at balanced
    obtain ⟨more, kinds⟩ := kindsOfLines_concat_append .code (frame.inner.take number) left
      right (frame.inner.drop (number + 1) ++ [frame.last])
    exact (kinds ▸ balanced).prefix_nonneg
  · -- the line is that of the closing brace
    have all : number = frame.inner.length := by omega
    rw [all, List.take_length] at starts ⊢
    rw [all, lineAt_length_append] at cut
    rcases append_cons_cases cut.symm with ⟨more, shorter, -⟩ | ⟨more, longer, -⟩
    · rw [pieces, shorter] at balanced
      obtain ⟨more', kinds⟩ := kindsOfLines_concat_append .code frame.inner left more []
      exact (kinds ▸ balanced).prefix_nonneg
    · -- the brace itself stands before the place
      have closes := holds.closes
      rw [starts] at closes
      have kinds : Mode.code.kinds (frame.last ++ '}' :: more) =
          Mode.code.kinds frame.last ++ .closing :: Mode.code.kinds more :=
        Mode.kinds_append_brace .closing more closes
      rw [longer, kinds] at noneClosed
      exact absurd (List.mem_append_right _ List.mem_cons_self) noneClosed

/-- On a line of code below that of the opening brace and not below that of the closing one it is
deeper than before the block, unless the block was closed there. -/
theorem depthAt_inside (holds : frame.Holds first) {spot : Spot}
    (below : frame.opening.line < spot.line) (inBlock : spot.line ≤ frame.closing.line)
    (starts : Mode.code.runLines (frame.lines.take spot.line) = .code)
    (noneClosed : .closing ∉ Mode.code.kinds (beforeSpot frame.lines spot)) :
    depthAt frame.lines frame.opening < depthAt frame.lines spot := by
  obtain ⟨line, rest, split, whole, number⟩ := frame.lines_eq_opening
  obtain ⟨count, place⟩ := Nat.exists_eq_add_of_lt below
  rw [Nat.add_assoc] at place
  change spot.line ≤ frame.opening.line + frame.inner.length at inBlock
  have inner : count + 1 ≤ frame.inner.length := by omega
  have opens : ((Mode.code.runLines (frame.above ++ frame.head)).run frame.before).isCode = true := by
    have front : Mode.code.runLines frame.above = .code := holds.clear.runLines
    rw [Mode.runLines_append, front]
    exact holds.opens
  have taken : line :: rest.take count = frame.inner.take (count + 1) := by
    rw [← List.take_succ_cons, split, List.take_append_of_le_length inner]
  have aboveSpot : frame.lines.take spot.line =
      (frame.above ++ frame.head) ++ (frame.before ++ '{' :: line) :: rest.take count := by
    rw [whole, place, ← number, List.take_length_add_append, List.take_succ_cons]
  have innerStarts : Mode.code.runLines (frame.inner.take (count + 1)) = .code := by
    rw [aboveSpot] at starts
    rw [← taken]
    exact (runLines_append_brace .opening line (rest.take count) opens).symm.trans starts
  have deeper : depthAt frame.lines spot = depthAt frame.lines frame.opening + 1 +
      BraceKind.balance (Mode.code.kindsOfLines (frame.inner.take (count + 1) ++
        [beforeSpot frame.lines spot])) := by
    have kinds := kindsOfLines_append_brace .opening line
      (rest.take count ++ [beforeSpot frame.lines spot]) opens
    rw [depthAt_opening, depthAt, aboveSpot, List.append_assoc, List.cons_append]
    refine (congrArg BraceKind.balance kinds).trans ?_
    rw [← taken, BraceKind.balance_append, BraceKind.balance]
    have one : BraceKind.opening.delta = 1 := rfl
    rw [one, List.cons_append]
    omega
  have nonneg : 0 ≤ BraceKind.balance (Mode.code.kindsOfLines (frame.inner.take (count + 1) ++
      [beforeSpot frame.lines spot])) := by
    obtain ⟨right, cut⟩ : ∃ right, lineAt frame.lines spot.line =
        beforeSpot frame.lines spot ++ right :=
      ⟨_, (Text.takeBytes_append_dropBytes _ _).symm⟩
    have onLine : lineAt frame.lines spot.line =
        lineAt (frame.inner ++ (frame.last ++ '}' :: frame.after) :: frame.below) (count + 1) := by
      rw [whole, place, ← number, ← split, lineAt, lineAt, List.getD_eq_getElem?_getD,
        List.getD_eq_getElem?_getD, List.getElem?_append_right (Nat.le_add_right _ _),
        Nat.add_sub_cancel_left, List.getElem?_cons_succ, List.getElem?_cons_succ]
    exact balance_before_nonneg holds inner (onLine.symm.trans cut) innerStarts noneClosed
  omega

end Frame

theorem Frame.declaration_le_closing (frame : Frame) :
    frame.bounds.declaration ≤ frame.bounds.closing.line := by
  change frame.above.length ≤ frame.above.length + frame.head.length + frame.inner.length
  omega

/-- The ranges of two procedures are apart exactly if the lines above the later declaration suffice
to locate the procedure that is declared first, and they are if that one has a block of its own. -/
theorem apart_iff_located_above {lines : List Text} {bounds others : Bounds}
    (located : locate? first lines = some bounds) (locatedOther : locate? second lines = some others)
    (above : bounds.declaration < others.declaration) :
    (bounds.Apart others ↔ locate? first (lines.take others.declaration) = some bounds) ∧
      (OwnBlock first second lines bounds others → bounds.Apart others) := by
  obtain ⟨frame, holds, rfl, rfl⟩ := locate?_eq_some_iff.1 located
  obtain ⟨other, otherHolds, same, rfl⟩ := locate?_eq_some_iff.1 locatedOther
  constructor
  · rw [locate?_take_eq_some_iff]
    constructor
    · rintro (precedes | follows)
      · exact ⟨located, precedes⟩
      · have later := other.declaration_le_closing
        exact absurd (Nat.lt_of_le_of_lt later follows) (Nat.lt_asymm above)
    · rintro ⟨-, precedes⟩
      exact Or.inl precedes
  · intro block
    left
    by_contra inside
    have starts : Mode.code.runLines (frame.lines.take other.bounds.declaration) = .code := by
      have taken : frame.lines.take other.bounds.declaration = other.above := by
        rw [same, Frame.lines, Frame.bounds, List.take_left]
      rw [taken]
      exact otherHolds.clear.runLines
    have deeper : depthAt frame.lines frame.opening <
        depthAt frame.lines (other.bounds.signature second frame.lines) :=
      Frame.depthAt_inside holds block.opensAbove (Nat.not_lt.1 inside) starts block.noneClosed
    have level := block.own.trans block.sameDepth
    change depthAt frame.lines frame.bounds.opening < _ at deeper
    omega

namespace Sample

/-- Both procedures have a block of their own. -/
def twoBlocks : List Text := [
  "class AddUsers \x7b".toList,
  "    void Up(Builder b)".toList,
  "    \x7b".toList,
  "        b.Sql(\"SELECT '\x7d'\");".toList,
  "    \x7d".toList,
  "    void Down(Builder b) \x7b b.DropTable(\"Users\"); \x7d".toList,
  "\x7d".toList]

/-- The procedure that is declared first has an expression for its body. -/
def expressionBody : List Text := [
  "class AddUsers \x7b".toList,
  "    void Up(Builder b) => b.Run();".toList,
  "    void Down(Builder b)".toList,
  "    \x7b".toList,
  "        b.Drop();".toList,
  "    \x7d".toList,
  "\x7d".toList]

end Sample

theorem apart_of_two_blocks :
    locate? .up Sample.twoBlocks = some ⟨1, ⟨2, 4⟩, ⟨4, 4⟩⟩ ∧
      locate? .down Sample.twoBlocks = some ⟨5, ⟨5, 25⟩, ⟨5, 49⟩⟩ ∧
      OwnBlock .up .down Sample.twoBlocks ⟨1, ⟨2, 4⟩, ⟨4, 4⟩⟩ ⟨5, ⟨5, 25⟩, ⟨5, 49⟩⟩ ∧
      Bounds.Apart ⟨1, ⟨2, 4⟩, ⟨4, 4⟩⟩ ⟨5, ⟨5, 25⟩, ⟨5, 49⟩⟩ := by
  have up : locate? .up Sample.twoBlocks = some ⟨1, ⟨2, 4⟩, ⟨4, 4⟩⟩ := by decide
  have down : locate? .down Sample.twoBlocks = some ⟨5, ⟨5, 25⟩, ⟨5, 49⟩⟩ := by decide
  have block : OwnBlock .up .down Sample.twoBlocks ⟨1, ⟨2, 4⟩, ⟨4, 4⟩⟩ ⟨5, ⟨5, 25⟩, ⟨5, 49⟩⟩ :=
    ⟨by decide, by decide, by decide, by decide⟩
  exact ⟨up, down, block, (apart_iff_located_above up down (by decide)).2 block⟩

/-- An expression body does not end the search for the brace: the block of the other procedure is
taken, at the same depth and although each procedure is declared once, on a line of its own. -/
theorem expression_body_takes_next_block :
    (withCarry .code Sample.expressionBody).countP (declares .up) = 1 ∧
      (withCarry .code Sample.expressionBody).countP (declares .down) = 1 ∧
      locate? .up Sample.expressionBody = some ⟨1, ⟨3, 4⟩, ⟨5, 4⟩⟩ ∧
      locate? .down Sample.expressionBody = some ⟨2, ⟨3, 4⟩, ⟨5, 4⟩⟩ ∧
      depthAt Sample.expressionBody (Bounds.signature .up Sample.expressionBody ⟨1, ⟨3, 4⟩, ⟨5, 4⟩⟩) =
        depthAt Sample.expressionBody
          (Bounds.signature .down Sample.expressionBody ⟨2, ⟨3, 4⟩, ⟨5, 4⟩⟩) ∧
      ¬ Bounds.Apart ⟨1, ⟨3, 4⟩, ⟨5, 4⟩⟩ ⟨2, ⟨3, 4⟩, ⟨5, 4⟩⟩ ∧
      (extract .up Sample.expressionBody).text = "b.Drop();".toList := by
  decide

end MigrationSquash.Code
