import MigrationSquash.Proofs.Region.Replace

/-!
# Slices

A body is read and replaced by cutting lines at offsets in bytes.  Here a cut is refused if its
ends are out of order, behind the end or inside a character.  Main statement: where two braces
stand in their places and in their order, nothing is refused, and what is read or written is what
it is without the checks.
-/

set_option autoImplicit false

namespace MigrationSquash

namespace Text

/-- Whether an offset in bytes is the start of a character or the end of the text. -/
def IsBoundary (n : Nat) (s : Text) : Prop := width (takeBytes n s) = n

instance (n : Nat) (s : Text) : Decidable (IsBoundary n s) := Nat.decEq _ _

/-- The part of a text from one offset in bytes up to another one. -/
def slice? (start stop : Nat) (s : Text) : Option Text :=
  if start ≤ stop ∧ IsBoundary start s ∧ IsBoundary stop s then
    some (dropBytes start (takeBytes stop s))
  else none

theorem slice?_eq {start stop : Nat} {s : Text} (order : start ≤ stop)
    (first : IsBoundary start s) (last : IsBoundary stop s) :
    slice? start stop s = some (dropBytes start (takeBytes stop s)) :=
  if_pos ⟨order, first, last⟩

theorem isBoundary_width_append (left right : Text) : IsBoundary (width left) (left ++ right) := by
  rw [IsBoundary, Code.takeBytes_width_append]

theorem isBoundary_zero (s : Text) : IsBoundary 0 s := isBoundary_width_append [] s

theorem takeBytes_width (s : Text) : takeBytes (width s) s = s := by
  have whole := Code.takeBytes_width_append s []
  rwa [List.append_nil] at whole

theorem isBoundary_width (s : Text) : IsBoundary (width s) s := by
  rw [IsBoundary, takeBytes_width]

end Text

namespace Code

/-- The lines from one number up to another one. -/
def sliceLines? (start stop : Nat) (lines : List Text) : Option (List Text) :=
  if start ≤ stop ∧ stop ≤ lines.length then some ((lines.take stop).drop start) else none

/-- What stands on a line before a spot. -/
def sliceBefore? (lines : List Text) (spot : Spot) : Option Text := do
  let line ← lines[spot.line]?
  Text.slice? 0 spot.offset line

/-- What stands on a line after a brace at a spot. -/
def sliceAfter? (lines : List Text) (spot : Spot) : Option Text := do
  let line ← lines[spot.line]?
  Text.slice? (spot.offset + 1) (Text.width line) line

namespace Bounds

/-- The text between the braces, if no cut is refused. -/
def sliceBody? (bounds : Bounds) (lines : List Text) : Option Text :=
  if bounds.opening.line = bounds.closing.line then do
    let line ← lines[bounds.opening.line]?
    Text.slice? (bounds.opening.offset + 1) bounds.closing.offset line
  else do
    let first ← sliceAfter? lines bounds.opening
    let inner ← sliceLines? (bounds.opening.line + 1) bounds.closing.line lines
    let last ← sliceBefore? lines bounds.closing
    return Text.joinLines (first :: inner ++ [last])

/-- The indentation of the first line inside the braces, if no cut is refused. -/
def sliceIndent? (bounds : Bounds) (lines : List Text) : Option (Option Nat) :=
  if bounds.opening.line = bounds.closing.line then some none
  else do
    let first ← sliceAfter? lines bounds.opening
    if Text.isBlankText first then
      let inner ← sliceLines? (bounds.opening.line + 1) bounds.closing.line lines
      return (inner.find? (!Text.isBlankText ·)).map (Text.indentation · |>.length)
    else return none

/-- The lines with another body, if no cut is refused. -/
def sliceReplace? (bounds : Bounds) (lines : List Text) (body : Text) : Option (List Text) := do
  let declaration ← lines[bounds.declaration]?
  let above ← sliceLines? 0 bounds.declaration lines
  let head ← sliceLines? bounds.declaration bounds.opening.line lines
  let before ← sliceBefore? lines bounds.opening
  let after ← sliceAfter? lines bounds.closing
  let below ← sliceLines? (bounds.closing.line + 1) lines.length lines
  let indent := Text.indentation declaration
  return above ++ head.map Text.trimEnd ++ [openingLine indent before] ++
    indentBlock body (indent ++ Text.indentStep) ++ [indent ++ '}' :: Text.trimEnd after] ++ below

end Bounds

/-- The body of the procedure, if no cut is refused. -/
def sliceExtract? (procedure : Procedure) (lines : List Text) : Option Region :=
  match locate? procedure lines with
  | none => some .empty
  | some bounds => do
      let text ← bounds.sliceBody? lines
      let indent ← bounds.sliceIndent? lines
      return ⟨bounds.declaration, bounds.closing.line, Text.trim text, indent⟩

/-- The lines with another body for the procedure, if no cut is refused. -/
def sliceReplace? (procedure : Procedure) (lines : List Text) (body : Text) :
    Option (List Text) :=
  match locate? procedure lines with
  | none => some lines
  | some bounds => bounds.sliceReplace? lines body

/-- A brace stands in the place. -/
structure StandsAt (kind : BraceKind) (lines : List Text) (spot : Spot) : Prop where
  inside : spot.line < lines.length
  offset : Text.width (beforeSpot lines spot) = spot.offset
  line : lineAt lines spot.line = beforeSpot lines spot ++ kind.char :: afterBrace lines spot

/-- Two braces stand in their places, below the declaration and in their order. -/
structure Bounds.Placed (lines : List Text) (bounds : Bounds) : Prop where
  opens : StandsAt .opening lines bounds.opening
  closes : StandsAt .closing lines bounds.closing
  head : bounds.declaration ≤ bounds.opening.line
  order : bounds.opening.line ≤ bounds.closing.line
  oneLine : bounds.opening.line = bounds.closing.line →
    bounds.opening.offset < bounds.closing.offset

theorem standsAt_length (kind : BraceKind) (front : List Text) (left right : Text)
    (rest : List Text) :
    StandsAt kind (front ++ (left ++ kind.char :: right) :: rest)
      ⟨front.length, Text.width left⟩ := by
  have before : beforeSpot (front ++ (left ++ kind.char :: right) :: rest)
      ⟨front.length, Text.width left⟩ = left := by
    rw [beforeSpot, lineAt_length_append, takeBytes_width_append]
  have after : afterBrace (front ++ (left ++ kind.char :: right) :: rest)
      ⟨front.length, Text.width left⟩ = right := by
    rw [afterBrace, lineAt_length_append, dropBytes_after_brace]
  constructor
  · simp
  · rw [before]
  · rw [before, after, lineAt_length_append]

section Stands

variable {kind : BraceKind} {lines : List Text} {spot : Spot} (stands : StandsAt kind lines spot)
include stands

theorem StandsAt.getElem?_eq : lines[spot.line]? = some (lineAt lines spot.line) := by
  rw [lineAt, List.getD_eq_getElem?_getD, List.getElem?_eq_getElem stands.inside, Option.getD_some]

theorem StandsAt.isBoundary : Text.IsBoundary spot.offset (lineAt lines spot.line) := by
  rw [stands.line, ← stands.offset]
  exact Text.isBoundary_width_append _ _

/-- A brace is a character of one byte. -/
theorem StandsAt.isBoundary_succ : Text.IsBoundary (spot.offset + 1) (lineAt lines spot.line) := by
  have past : Text.width (beforeSpot lines spot ++ [kind.char]) = spot.offset + 1 := by
    rw [Text.width_append, Text.width_cons, Text.width_nil, Mode.width_braceChar, stands.offset]
  rw [stands.line, List.append_cons, ← past]
  exact Text.isBoundary_width_append _ _

theorem StandsAt.succ_le_width : spot.offset + 1 ≤ Text.width (lineAt lines spot.line) := by
  rw [stands.line, Text.width_append, Text.width_cons, Mode.width_braceChar, stands.offset]
  omega

theorem sliceBefore?_eq : sliceBefore? lines spot = some (beforeSpot lines spot) := by
  rw [sliceBefore?, stands.getElem?_eq, Option.bind_eq_bind, Option.bind_some,
    Text.slice?_eq (Nat.zero_le _) (Text.isBoundary_zero _) stands.isBoundary, Text.dropBytes,
    Text.splitAtByte_zero]
  rfl

theorem sliceAfter?_eq : sliceAfter? lines spot = some (afterBrace lines spot) := by
  rw [sliceAfter?, stands.getElem?_eq, Option.bind_eq_bind, Option.bind_some,
    Text.slice?_eq stands.succ_le_width stands.isBoundary_succ (Text.isBoundary_width _),
    Text.takeBytes_width]
  rfl

end Stands

theorem sliceLines?_eq {start stop : Nat} {lines : List Text} (order : start ≤ stop)
    (inside : stop ≤ lines.length) :
    sliceLines? start stop lines = some ((lines.take stop).drop start) :=
  if_pos ⟨order, inside⟩

namespace Bounds.Placed

variable {lines : List Text} {bounds : Bounds} (placed : bounds.Placed lines)
include placed

theorem sliceBody?_eq : bounds.sliceBody? lines = some (bounds.body lines) := by
  unfold sliceBody? body
  by_cases same : bounds.opening.line = bounds.closing.line
  · have boundary := placed.closes.isBoundary
    rw [← same] at boundary
    rw [if_pos same, if_pos same, placed.opens.getElem?_eq, Option.bind_eq_bind, Option.bind_some,
      Text.slice?_eq (placed.oneLine same) placed.opens.isBoundary_succ boundary, beforeSpot, same]
  · have order := placed.order
    rw [if_neg same, if_neg same, sliceAfter?_eq placed.opens, sliceBefore?_eq placed.closes,
      sliceLines?_eq (by omega) placed.closes.inside.le]
    rfl

theorem sliceIndent?_eq : bounds.sliceIndent? lines = some (bounds.firstIndent lines) := by
  unfold sliceIndent? firstIndent
  by_cases same : bounds.opening.line = bounds.closing.line
  · simp [same]
  · have order := placed.order
    rw [if_neg same, sliceAfter?_eq placed.opens, sliceLines?_eq (by omega) placed.closes.inside.le]
    cases blank : Text.isBlankText (afterBrace lines bounds.opening) <;> simp [same, blank, innerLines]

theorem sliceReplace?_eq (body : Text) :
    bounds.sliceReplace? lines body = some (bounds.replace lines body) := by
  have inside := placed.closes.inside
  have order := placed.order
  have head := placed.head
  have declared : lines[bounds.declaration]? = some (lineAt lines bounds.declaration) := by
    rw [lineAt, List.getD_eq_getElem?_getD, List.getElem?_eq_getElem (by omega), Option.getD_some]
  rw [Bounds.sliceReplace?, declared, sliceLines?_eq (Nat.zero_le _) (by omega),
    sliceLines?_eq head (by omega), sliceBefore?_eq placed.opens, sliceAfter?_eq placed.closes,
    sliceLines?_eq inside le_rfl, List.take_length]
  rfl

end Bounds.Placed

/-- The braces of a frame stand in their places. -/
theorem Frame.placed (frame : Frame) : frame.bounds.Placed frame.lines := by
  obtain ⟨first, rest, -, whole, number⟩ := frame.lines_eq_opening
  obtain ⟨front, start, whole', number', offset', -⟩ := frame.lines_eq_closing
  constructor
  · have stands := standsAt_length .opening (frame.above ++ frame.head) frame.before first rest
    rw [number] at stands
    rw [whole]
    exact stands
  · have stands := standsAt_length .closing front start frame.after frame.below
    rw [number', offset'] at stands
    rw [whole']
    exact stands
  · exact Nat.le_add_right _ _
  · exact Nat.le_add_right _ _
  · intro same
    have inner : frame.inner = [] := by
      change frame.opening.line = frame.opening.line + frame.inner.length at same
      exact List.eq_nil_of_length_eq_zero (by omega)
    have offset : frame.closing.offset = frame.opening.offset + 1 + Text.width frame.last := by
      simp [closing, inner]
    change frame.opening.offset < frame.closing.offset
    omega

theorem placed_of_located {procedure : Procedure} {lines : List Text} {bounds : Bounds}
    (located : locate? procedure lines = some bounds) : bounds.Placed lines := by
  obtain ⟨frame, -, rfl, rfl⟩ := locate?_eq_some_iff.1 located
  exact frame.placed

/-- Reading a body never makes a cut that is refused. -/
theorem sliceExtract?_eq (procedure : Procedure) (lines : List Text) :
    sliceExtract? procedure lines = some (extract procedure lines) := by
  unfold sliceExtract? extract extract?
  cases located : locate? procedure lines with
  | none => rfl
  | some bounds =>
      have placed := placed_of_located located
      simp only [placed.sliceBody?_eq, placed.sliceIndent?_eq]
      rfl

/-- Nor does replacing one. -/
theorem sliceReplace?_eq (procedure : Procedure) (lines : List Text) (body : Text) :
    sliceReplace? procedure lines body = some (replace procedure lines body) := by
  unfold sliceReplace? replace
  cases located : locate? procedure lines with
  | none => rfl
  | some bounds => exact (placed_of_located located).sliceReplace?_eq body

end Code

end MigrationSquash
