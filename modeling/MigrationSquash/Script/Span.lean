import MigrationSquash.Script.Pattern

/-!
# Spans

Pieces of a text by the number of characters before their start and before their end, how
they are found, and the text without them.  A piece takes its line along where only blanks
are left of it.
-/

set_option autoImplicit false

namespace MigrationSquash.Script

structure Span where
  start : Nat
  stop : Nat
  deriving DecidableEq, Repr

/-- Whether a span lies inside another one. -/
def Span.isWithin (span outer : Span) : Bool :=
  outer.start ≤ span.start && span.stop ≤ outer.stop

/-- The part of a text that a span covers. -/
def Span.text (span : Span) (s : Text) : Text := (s.take span.stop).drop span.start

/-- The length of a piece that starts at a place and how far from there the search for
the next one goes on. -/
structure Found where
  length : Nat
  resume : Nat
  deriving DecidableEq, Repr

/-- The pieces in the rest of a text, of which `skip` characters are passed over first. -/
def spansFrom (found? : Cursor → Option Found) : Option Char → Nat → Nat → Text → List Span
  | _, _, _, [] => []
  | _, position, skip + 1, c :: rest => spansFrom found? (some c) (position + 1) skip rest
  | left, position, 0, c :: rest =>
      match found? ⟨left, c :: rest⟩ with
      | some found =>
          ⟨position, position + found.length⟩ ::
            spansFrom found? (some c) (position + 1) (found.resume - 1) rest
      | none => spansFrom found? (some c) (position + 1) 0 rest

/-- The pieces of a text from left to right. -/
def spans (found? : Cursor → Option Found) (s : Text) : List Span := spansFrom found? none 0 0 s

/-- The pieces that a pattern reads. -/
def occurrences (pattern : Pattern) (s : Text) : List Span :=
  spans (fun cursor => (pattern.length? cursor).map fun length => ⟨length, length⟩) s

/-- How many characters a statement has up to its semicolon, inside `depth` parentheses
and perhaps inside quotes.  One that does not end reaches to the end of the text. -/
def statementLength : Nat → Option Char → Text → Nat
  | _, _, [] => 0
  | depth, some quote, c :: rest =>
      statementLength depth (if c = quote then none else some quote) rest + 1
  | depth, none, c :: rest =>
      if c = '\'' || c = '"' then statementLength depth (some c) rest + 1
      else if c = '(' then statementLength (depth + 1) none rest + 1
      else if c = ')' then statementLength (depth - 1) none rest + 1
      else if c = ';' && depth = 0 then 1
      else statementLength depth none rest + 1

/-- The statements that start with what a pattern reads. -/
def statements (pattern : Pattern) (s : Text) : List Span :=
  spans (fun cursor => (pattern.length? cursor).map fun length =>
    let whole := statementLength 0 none cursor.rest
    ⟨whole, max whole length⟩) s

/-- The text without the trailing characters that indent. -/
def dropIndentEnd (s : Text) : Text := (s.reverse.dropWhile Text.isIndent).reverse

/-- Whether the line holds nothing yet where `kept` ends, the character before `kept`
being `left`. -/
def isLineStart (left : Option Char) (kept : Text) : Bool :=
  match kept.getLast? with
  | some c => c == '\n'
  | none => left.all (· == '\n')

/-- Removes spans, which are ascending and disjoint, from the text that follows the
character `left` and starts at `position`. -/
def cutFrom : Option Char → Nat → Text → List Span → Text
  | _, _, s, [] => s
  | left, position, s, span :: more =>
      if span.start < position then
        cutFrom left position s more
      else
        let before := s.take (span.start - position)
        let after := s.drop (span.stop - position)
        let removed := s.take (span.stop - position)
        let kept := dropIndentEnd before
        let blank := after.takeWhile Text.isIndent
        let next := after.dropWhile Text.isIndent
        if isLineStart left kept && (next.isEmpty || next.head? = some '\n') then
          kept ++ cutFrom (some '\n') (span.stop + blank.length + 1) (next.drop 1) more
        else
          before ++ cutFrom (removed.getLast?.or left) span.stop after more

/-- The text without the spans, which are ascending and disjoint. -/
def cut (s : Text) (removed : List Span) : Text := cutFrom none 0 s removed

end MigrationSquash.Script
