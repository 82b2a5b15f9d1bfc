import MigrationSquash.Proofs.Text.Folding
import MigrationSquash.Script.Pattern

/-!
# What patterns read

A pattern that leads from one place to another has read the text between them.  Main
statements: what the text is for each way to make a pattern, and that a pattern which starts
with a word reads at least one character that is not blank.
-/

set_option autoImplicit false

namespace MigrationSquash.Script

open Text (AllBlank SameFolded foldCase isBlank isWord)

namespace Cursor

/-- The text between a place and a later one. -/
def Reads (cursor : Cursor) (read : Text) (stop : Cursor) : Prop :=
  cursor.rest = read ++ stop.rest ∧ stop.left = read.getLast?.or cursor.left

variable {cursor middle stop : Cursor} {read later : Text}

theorem Reads.refl (cursor : Cursor) : cursor.Reads [] cursor := ⟨rfl, rfl⟩

theorem Reads.trans (first : cursor.Reads read middle) (second : middle.Reads later stop) :
    cursor.Reads (read ++ later) stop := by
  refine ⟨by rw [first.1, second.1, List.append_assoc], ?_⟩
  rw [second.2, first.2, List.getLast?_append, Option.or_assoc]

theorem Reads.split (reads : cursor.Reads (read ++ later) stop) :
    ∃ middle, cursor.Reads read middle ∧ middle.Reads later stop := by
  refine ⟨⟨read.getLast?.or cursor.left, later ++ stop.rest⟩, ⟨?_, rfl⟩, rfl, ?_⟩
  · rw [reads.1, List.append_assoc]
  · rw [reads.2, List.getLast?_append, Option.or_assoc]

theorem Reads.cons {left : Option Char} {c : Char} {rest : Text}
    (reads : Reads ⟨some c, rest⟩ read stop) : Reads ⟨left, c :: rest⟩ (c :: read) stop := by
  have step : Reads ⟨left, c :: rest⟩ [c] ⟨some c, rest⟩ := ⟨rfl, rfl⟩
  exact step.trans reads

theorem reads_append (left : Option Char) (read rest : Text) :
    Reads ⟨left, read ++ rest⟩ read ⟨read.getLast?.or left, rest⟩ := ⟨rfl, rfl⟩

theorem Reads.eq_mk (reads : cursor.Reads read stop) :
    stop = ⟨read.getLast?.or cursor.left, stop.rest⟩ := by
  obtain ⟨left, rest⟩ := stop
  exact congrArg (Cursor.mk · rest) reads.2

theorem Reads.eq_of_nil (reads : cursor.Reads [] stop) : stop = cursor := by
  obtain ⟨left, rest⟩ := cursor
  rw [reads.eq_mk, ← show rest = stop.rest from reads.1]
  rfl

theorem advance_append (left : Option Char) (read rest : Text) :
    advance read.length ⟨left, read ++ rest⟩ = ⟨read.getLast?.or left, rest⟩ := by
  induction read generalizing left with
  | nil => rfl
  | cons c more ih =>
      rw [List.length_cons, List.cons_append, advance, ih, Procedure.getLast?_cons_or]

theorem mem_ahead_iff {inside : Char → Bool} {left : Option Char} {s : Text} :
    stop ∈ ahead inside left s ↔
      ∃ read, Reads ⟨left, s⟩ read stop ∧ ∀ c ∈ read, inside c = true := by
  induction s generalizing left with
  | nil =>
      rw [ahead, List.mem_singleton]
      constructor
      · rintro rfl
        exact ⟨[], Reads.refl _, nofun⟩
      · rintro ⟨read, ⟨split, found⟩, -⟩
        obtain ⟨rfl, -⟩ := List.nil_eq_append_iff.1 split
        exact Reads.eq_of_nil ⟨split, found⟩
  | cons c rest ih =>
      rw [ahead, List.mem_cons]
      constructor
      · rintro (rfl | further)
        · exact ⟨[], Reads.refl _, nofun⟩
        · split at further
          · rename_i first
            obtain ⟨read, reads, all⟩ := ih.1 further
            exact ⟨c :: read, reads.cons, List.forall_mem_cons.2 ⟨first, all⟩⟩
          · cases further
      · rintro ⟨read, reads, all⟩
        cases read with
        | nil =>
            left
            exact reads.eq_of_nil
        | cons d more =>
            right
            obtain ⟨rfl, split⟩ := List.cons.inj reads.1
            rw [if_pos (all c List.mem_cons_self)]
            refine ih.2 ⟨more, ⟨split, ?_⟩, fun d member => all d (List.mem_cons_of_mem _ member)⟩
            rw [reads.2, Procedure.getLast?_cons_or]

theorem reads_past (inside : Char → Bool) (left : Option Char) (s : Text) :
    ∃ read, Reads ⟨left, s⟩ read (past inside left s) ∧ ∀ c ∈ read, inside c = true := by
  induction s generalizing left with
  | nil => exact ⟨[], Reads.refl _, nofun⟩
  | cons c rest ih =>
      rw [past]
      split
      · rename_i first
        obtain ⟨read, reads, all⟩ := ih (some c)
        exact ⟨c :: read, reads.cons, List.forall_mem_cons.2 ⟨first, all⟩⟩
      · exact ⟨[], Reads.refl _, nofun⟩

end Cursor

namespace Pattern

open Cursor

variable {cursor stop : Cursor} {inside : Char → Bool} {pattern : Pattern} {patterns : List Pattern}

theorem mem_word_iff {s : Text} :
    stop ∈ word s cursor ↔ ∃ read, cursor.Reads read stop ∧ SameFolded read s := by
  obtain ⟨left, rest⟩ := cursor
  rw [word]
  constructor
  · intro member
    split at member
    · rename_i found
      obtain ⟨after, found⟩ := Option.isSome_iff_exists.1 found
      obtain ⟨read, rfl, same⟩ := Text.afterFolded?_eq_some_iff.1 found
      rw [List.mem_singleton, ← same.length_eq, advance_append] at member
      subst member
      exact ⟨read, reads_append left read after, same⟩
    · cases member
  · rintro ⟨read, reads, same⟩
    have split := reads.1
    dsimp only at split
    subst split
    rw [if_pos, List.mem_singleton, ← same.length_eq, advance_append]
    · exact reads.eq_mk
    · rw [Text.afterFolded?_eq_some_iff.2 ⟨read, rfl, same⟩]
      rfl

theorem mem_run_iff :
    stop ∈ run inside cursor ↔ ∃ read, cursor.Reads read stop ∧ ∀ c ∈ read, inside c = true := by
  rw [run, within, List.mem_reverse, mem_ahead_iff]

theorem reads_of_mem_wholeRun (member : stop ∈ wholeRun inside cursor) :
    ∃ read, cursor.Reads read stop ∧ ∀ c ∈ read, inside c = true := by
  rw [wholeRun, List.mem_singleton] at member
  subst member
  exact reads_past inside cursor.left cursor.rest

theorem mem_someRun_iff :
    stop ∈ someRun inside cursor ↔
      ∃ read, cursor.Reads read stop ∧ read ≠ [] ∧ ∀ c ∈ read, inside c = true := by
  obtain ⟨left, rest⟩ := cursor
  cases rest with
  | nil =>
      constructor
      · rintro ⟨⟩
      · rintro ⟨read, ⟨split, -⟩, nonempty, -⟩
        exact absurd (List.nil_eq_append_iff.1 split).1 nonempty
  | cons c rest =>
      change stop ∈ (if inside c then within inside (some c) rest else []) ↔ _
      constructor
      · intro member
        split at member
        · rename_i first
          rw [within, List.mem_reverse, mem_ahead_iff] at member
          obtain ⟨read, reads, all⟩ := member
          exact ⟨c :: read, reads.cons, List.cons_ne_nil _ _, List.forall_mem_cons.2 ⟨first, all⟩⟩
        · cases member
      · rintro ⟨read, reads, nonempty, all⟩
        obtain ⟨d, more, rfl⟩ := List.exists_cons_of_ne_nil nonempty
        obtain ⟨rfl, split⟩ := List.cons.inj reads.1
        rw [if_pos (all c List.mem_cons_self), within, List.mem_reverse, mem_ahead_iff]
        refine ⟨more, ⟨split, ?_⟩, fun d member => all d (List.mem_cons_of_mem _ member)⟩
        rw [reads.2, Procedure.getLast?_cons_or]

theorem mem_boundary_iff :
    stop ∈ boundary cursor ↔
      stop = cursor ∧ Text.isWordBoundary cursor.left cursor.rest.head? = true := by
  rw [boundary]
  split
  · rename_i found
    simp [found]
  · rename_i missing
    simp [missing]

theorem mem_sequence_nil_iff : stop ∈ sequence [] cursor ↔ stop = cursor := List.mem_singleton

theorem mem_sequence_cons_iff :
    stop ∈ sequence (pattern :: patterns) cursor ↔
      ∃ middle ∈ pattern cursor, stop ∈ sequence patterns middle := List.mem_flatMap

theorem mem_choice_iff :
    stop ∈ choice patterns cursor ↔ ∃ pattern ∈ patterns, stop ∈ pattern cursor := List.mem_flatMap

theorem mem_optional_iff :
    stop ∈ optional pattern cursor ↔ stop ∈ pattern cursor ∨ stop = cursor := by
  rw [optional, mem_choice_iff]
  simp [mem_sequence_nil_iff]

theorem exists_of_mem_through (member : stop ∈ through pattern cursor) :
    ∃ read middle, cursor.Reads read middle ∧ stop ∈ pattern middle := by
  obtain ⟨left, rest⟩ := cursor
  change stop ∈ through.go pattern left rest at member
  induction rest generalizing left with
  | nil => exact ⟨[], _, Reads.refl _, List.mem_of_mem_take member⟩
  | cons c rest ih =>
      rw [through.go] at member
      split at member
      · rename_i first more found
        rw [List.mem_singleton] at member
        subst member
        exact ⟨[], _, Reads.refl _, by rw [found]; exact List.mem_cons_self⟩
      · obtain ⟨read, middle, reads, later⟩ := ih (some c) member
        exact ⟨c :: read, middle, reads.cons, later⟩

/-- A pattern that leads to places further on. -/
def Advances (pattern : Pattern) : Prop :=
  ∀ cursor, ∀ stop ∈ pattern cursor, ∃ read, cursor.Reads read stop

theorem advances_word (s : Text) : Advances (word s) := fun _ _ member =>
  (mem_word_iff.1 member).imp fun _ found => found.1

theorem advances_run (inside : Char → Bool) : Advances (run inside) := fun _ _ member =>
  (mem_run_iff.1 member).imp fun _ found => found.1

theorem advances_wholeRun (inside : Char → Bool) : Advances (wholeRun inside) := fun _ _ member =>
  (reads_of_mem_wholeRun member).imp fun _ found => found.1

theorem advances_someRun (inside : Char → Bool) : Advances (someRun inside) := fun _ _ member =>
  (mem_someRun_iff.1 member).imp fun _ found => found.1

theorem advances_boundary : Advances boundary := by
  intro cursor stop member
  rw [(mem_boundary_iff.1 member).1]
  exact ⟨[], Reads.refl cursor⟩

theorem advances_sequence (all : ∀ pattern ∈ patterns, Advances pattern) :
    Advances (sequence patterns) := by
  induction patterns with
  | nil =>
      intro cursor stop member
      rw [mem_sequence_nil_iff.1 member]
      exact ⟨[], Reads.refl cursor⟩
  | cons pattern rest ih =>
      intro cursor stop member
      obtain ⟨middle, first, later⟩ := mem_sequence_cons_iff.1 member
      obtain ⟨read, reads⟩ := all pattern List.mem_cons_self cursor middle first
      obtain ⟨more, onward⟩ :=
        ih (fun other member => all other (List.mem_cons_of_mem _ member)) middle stop later
      exact ⟨read ++ more, reads.trans onward⟩

theorem advances_choice (all : ∀ pattern ∈ patterns, Advances pattern) :
    Advances (choice patterns) := by
  intro cursor stop member
  obtain ⟨pattern, among, found⟩ := mem_choice_iff.1 member
  exact all pattern among cursor stop found

theorem advances_through (advances : Advances pattern) : Advances (through pattern) := by
  intro cursor stop member
  obtain ⟨read, middle, reads, found⟩ := exists_of_mem_through member
  obtain ⟨more, onward⟩ := advances middle stop found
  exact ⟨read ++ more, reads.trans onward⟩

/-- A pattern that reads a character which is not blank first. -/
def Opens (pattern : Pattern) : Prop :=
  ∀ cursor, ∀ stop ∈ pattern cursor, ∃ c read, isBlank c = false ∧ cursor.Reads (c :: read) stop

theorem opens_word {c : Char} (visible : isBlank c = false) (s : Text) : Opens (word (c :: s)) := by
  intro cursor stop member
  obtain ⟨read, reads, same⟩ := mem_word_iff.1 member
  obtain ⟨d, more, rfl, first, -⟩ := Text.sameFolded_cons_iff.1 same
  refine ⟨d, more, ?_, reads⟩
  rw [Text.isBlank_eq_of_foldCase_eq first, visible]

theorem opens_sequence (opens : Opens pattern) (all : ∀ pattern ∈ patterns, Advances pattern) :
    Opens (sequence (pattern :: patterns)) := by
  intro cursor stop member
  obtain ⟨middle, first, later⟩ := mem_sequence_cons_iff.1 member
  obtain ⟨c, read, visible, reads⟩ := opens cursor middle first
  obtain ⟨more, onward⟩ := advances_sequence all middle stop later
  exact ⟨c, read ++ more, visible, reads.trans onward⟩

theorem opens_choice (all : ∀ pattern ∈ patterns, Opens pattern) : Opens (choice patterns) := by
  intro cursor stop member
  obtain ⟨pattern, among, found⟩ := mem_choice_iff.1 member
  exact all pattern among cursor stop found

theorem exists_of_length?_eq_some {n : Nat} (found : pattern.length? cursor = some n) :
    ∃ stop ∈ pattern cursor, n = cursor.rest.length - stop.rest.length := by
  obtain ⟨stop, first, rfl⟩ := Option.map_eq_some_iff.1 found
  exact ⟨stop, List.mem_of_mem_head? first, rfl⟩

theorem Opens.of_length?_eq_some (opens : Opens pattern) {n : Nat}
    (found : pattern.length? cursor = some n) :
    0 < n ∧ ∃ c rest, cursor.rest = c :: rest ∧ isBlank c = false := by
  obtain ⟨stop, member, rfl⟩ := exists_of_length?_eq_some found
  obtain ⟨c, read, visible, reads⟩ := opens cursor stop member
  refine ⟨?_, c, read ++ stop.rest, reads.1, visible⟩
  rw [reads.1, List.length_append, List.length_cons]
  omega

end Pattern

end MigrationSquash.Script
