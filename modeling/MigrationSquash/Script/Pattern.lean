import MigrationSquash.Text.Blank
import MigrationSquash.Text.CaseFold
import MigrationSquash.Text.Word

/-!
# Patterns in scripts

A pattern reads a beginning of a text in every way it can, the preferred way first.
Letters are read in either case.
-/

set_option autoImplicit false

namespace MigrationSquash.Script

/-- A place in a text: the character before it and the text after it. -/
structure Cursor where
  left : Option Char
  rest : Text
  deriving DecidableEq, Repr

/-- The places up to which a beginning can be read, the preferred one first. -/
abbrev Pattern := Cursor → List Cursor

namespace Cursor

/-- The place `count` characters further on. -/
def advance : Nat → Cursor → Cursor
  | 0, cursor => cursor
  | _ + 1, ⟨left, []⟩ => ⟨left, []⟩
  | count + 1, ⟨_, c :: rest⟩ => advance count ⟨some c, rest⟩

/-- The places within a run of characters, the nearest one first. -/
def ahead (inside : Char → Bool) (left : Option Char) : Text → List Cursor
  | [] => [⟨left, []⟩]
  | c :: rest => ⟨left, c :: rest⟩ :: (if inside c then ahead inside (some c) rest else [])

/-- The places within a run of characters, the farthest one first. -/
def within (inside : Char → Bool) (left : Option Char) (s : Text) : List Cursor :=
  (ahead inside left s).reverse

/-- The place behind a run of characters. -/
def past (inside : Char → Bool) (left : Option Char) : Text → Cursor
  | [] => ⟨left, []⟩
  | c :: rest => if inside c then past inside (some c) rest else ⟨left, c :: rest⟩

end Cursor

namespace Pattern

/-- Reads a given text. -/
def word (s : Text) : Pattern := fun cursor =>
  if (Text.afterFolded? s cursor.rest).isSome then [cursor.advance s.length] else []

/-- Reads any number of characters, rather more than fewer. -/
def run (inside : Char → Bool) : Pattern := fun cursor =>
  Cursor.within inside cursor.left cursor.rest

/-- Reads as many characters as there are, and never fewer.  Where something else has to
follow, this reads what `run` does. -/
def wholeRun (inside : Char → Bool) : Pattern := fun cursor =>
  [Cursor.past inside cursor.left cursor.rest]

/-- Reads at least one character, rather more than fewer. -/
def someRun (inside : Char → Bool) : Pattern := fun cursor =>
  match cursor.rest with
  | [] => []
  | c :: rest => if inside c then Cursor.within inside (some c) rest else []

def blanks : Pattern := run Text.isBlank

def someBlanks : Pattern := someRun Text.isBlank

/-- Reads nothing between a word character and another one. -/
def boundary : Pattern := fun cursor =>
  if Text.isWordBoundary cursor.left cursor.rest.head? then [cursor] else []

/-- Reads the patterns one after the other. -/
def sequence : List Pattern → Pattern
  | [] => fun cursor => [cursor]
  | pattern :: rest => fun cursor => (pattern cursor).flatMap (sequence rest)

/-- Reads one of the patterns, rather an earlier one. -/
def choice (patterns : List Pattern) : Pattern := fun cursor =>
  patterns.flatMap fun pattern => pattern cursor

/-- Reads the pattern rather than nothing. -/
def optional (pattern : Pattern) : Pattern := choice [pattern, sequence []]

/-- Reads up to and including the first place where the pattern can be read. -/
def through (pattern : Pattern) : Pattern := fun cursor => go cursor.left cursor.rest
where
  go (left : Option Char) : Text → List Cursor
    | [] => (pattern ⟨left, []⟩).take 1
    | c :: rest =>
        match pattern ⟨left, c :: rest⟩ with
        | stop :: _ => [stop]
        | [] => go (some c) rest

/-- How many characters the pattern reads in the preferred way. -/
def length? (pattern : Pattern) (cursor : Cursor) : Option Nat :=
  (pattern cursor).head?.map fun stop => cursor.rest.length - stop.rest.length

end Pattern

end MigrationSquash.Script
