import MigrationSquash.Proofs.Scan.Blanks
import MigrationSquash.Proofs.Scan.Spots
import MigrationSquash.Proofs.Text.Lines

/-!
# Reading source text

The walk over the characters of a text in which lines are ended by line feeds.  Main
statements: it finds in a text what the scan of its lines finds, whichever way the text is
split into lines, and nothing that it finds is lost when blanks around the text are cut off.
-/

set_option autoImplicit false

namespace MigrationSquash.Code.Mode

open Text (joinLines joinLines_append Unbroken)

/-- The mode after a character of a text; at a line feed only what reaches over lines stays
open. -/
def next (mode : Mode) (c : Char) : Mode := if c = '\n' then mode.carry.mode else mode.step c

/-- The mode after a text. -/
def read (mode : Mode) (s : Text) : Mode := s.foldl next mode

/-- The kinds of the structural braces of a text. -/
def kindsOfText : Mode → Text → List BraceKind
  | _, [] => []
  | mode, c :: rest => (mode.braceAt? c).toList ++ (mode.next c).kindsOfText rest

variable (mode : Mode) (c : Char) (s left right : Text)

@[simp] theorem read_nil : mode.read [] = mode := rfl

@[simp] theorem read_cons : mode.read (c :: s) = (mode.next c).read s := rfl

@[simp] theorem read_append : mode.read (left ++ right) = (mode.read left).read right := by
  simp [read]

@[simp] theorem next_feed : mode.next '\n' = mode.carry.mode := rfl

theorem next_of_ne {c : Char} (noFeed : c ≠ '\n') : mode.next c = mode.step c := if_neg noFeed

@[simp] theorem kindsOfText_nil : mode.kindsOfText [] = [] := rfl

theorem kindsOfText_append :
    mode.kindsOfText (left ++ right) =
      mode.kindsOfText left ++ (mode.read left).kindsOfText right := by
  induction left generalizing mode with
  | nil => rfl
  | cons c rest ih => simp [kindsOfText, ih]

theorem braceAt?_feed : mode.braceAt? '\n' = none := by
  rw [braceAt?, braceKind?_of_isBlank (by decide), ite_self]

theorem kindsOfText_feed : mode.kindsOfText ('\n' :: s) = mode.carry.mode.kindsOfText s := by
  rw [kindsOfText, braceAt?_feed]
  rfl

theorem read_unbroken {line : Text} (unbroken : Unbroken line) :
    mode.read line = mode.run line ∧ mode.kindsOfText line = mode.kinds line := by
  induction line generalizing mode with
  | nil => exact ⟨rfl, rfl⟩
  | cons c rest ih =>
      obtain ⟨modes, kinds⟩ := ih (mode.step c) unbroken.tail
      rw [read_cons, kindsOfText, mode.next_of_ne unbroken.head, modes, kinds]
      exact ⟨rfl, rfl⟩

theorem read_joinLines_append (front : List Text) {last : Text}
    (unbroken : ∀ line ∈ front ++ [last], Unbroken line) :
    mode.read (joinLines (front ++ [last])) = (mode.runLines front).run last ∧
      mode.kindsOfText (joinLines (front ++ [last])) = mode.kindsOfLines (front ++ [last]) := by
  induction front generalizing mode with
  | nil =>
      obtain ⟨modes, kinds⟩ := mode.read_unbroken (unbroken last (by simp))
      exact ⟨modes, by simpa using kinds⟩
  | cons line rest ih =>
      have joined := joinLines_append [line] (rest ++ [last]) (by simp) (by simp)
      obtain ⟨modes, kinds⟩ := mode.read_unbroken (unbroken line (by simp))
      obtain ⟨laterModes, laterKinds⟩ :=
        ih (mode.run line).carry.mode fun l member => unbroken l (List.mem_cons_of_mem _ member)
      rw [List.singleton_append, Text.joinLines_singleton] at joined
      rw [List.cons_append, joined]
      constructor
      · rw [read_append, modes, read_cons, next_feed, laterModes]
        rfl
      · rw [kindsOfText_append, modes, kinds, kindsOfText_feed, laterKinds]
        rfl

theorem kindsOfText_joinLines {lines : List Text} (unbroken : ∀ line ∈ lines, Unbroken line) :
    mode.kindsOfText (joinLines lines) = mode.kindsOfLines lines := by
  rcases List.eq_nil_or_concat lines with rfl | ⟨front, last, rfl⟩
  · rfl
  · rw [List.concat_eq_append] at unbroken ⊢
    exact (mode.read_joinLines_append front unbroken).2

theorem carry_read_joinLines {lines : List Text} (unbroken : ∀ line ∈ lines, Unbroken line) :
    (mode.read (joinLines lines)).carry = (mode.runLines lines).carry := by
  rcases List.eq_nil_or_concat lines with rfl | ⟨front, last, rfl⟩
  · rfl
  · rw [List.concat_eq_append] at unbroken ⊢
    rw [(mode.read_joinLines_append front unbroken).1, runLines_append, runLines_cons,
      runLines_nil, Carry.carry_mode]

theorem isBlank_return {returns : Text} (all : ∀ c ∈ returns, c = '\r') :
    Text.AllBlank returns := by
  intro c member
  rw [all c member]
  decide

/-- A carriage return at the end of a line means nothing. -/
theorem scan_dropReturn (line : Text) :
    mode.kinds (Text.dropReturn line) = mode.kinds line ∧
      (mode.run (Text.dropReturn line)).carry = (mode.run line).carry := by
  obtain ⟨returns, split, all⟩ := Text.dropReturn_append_returns line
  generalize Text.dropReturn line = short at split
  subst split
  rw [kinds_append, kinds_blanks (isBlank_return all), run_append,
    carry_run_blanks (isBlank_return all), List.append_nil]
  exact ⟨rfl, rfl⟩

theorem lines_dropReturn (lines : List Text) :
    mode.kindsOfLines (lines.map Text.dropReturn) = mode.kindsOfLines lines ∧
      mode.runLines (lines.map Text.dropReturn) = mode.runLines lines := by
  induction lines generalizing mode with
  | nil => exact ⟨rfl, rfl⟩
  | cons line rest ih =>
      obtain ⟨kinds, carries⟩ := mode.scan_dropReturn line
      simp only [List.map_cons, kindsOfLines_cons, runLines_cons, kinds, carries]
      obtain ⟨laterKinds, laterModes⟩ := ih (mode.run line).carry.mode
      exact ⟨by rw [laterKinds], laterModes⟩

/-- The lines of a text hold the braces of the text and leave open what it leaves open. -/
theorem kindsOfLines_lines :
    mode.kindsOfLines (Text.lines s) = mode.kindsOfText s ∧
      (mode.runLines (Text.lines s)).carry = (mode.read s).carry := by
  have whole := Text.joinLines_pieces s
  have unbroken : ∀ piece ∈ Text.pieces s, Unbroken piece :=
    fun piece member => Text.unbroken_of_mem_pieces member
  rcases List.eq_nil_or_concat (Text.pieces s) with empty | ⟨front, last, split⟩
  · exact absurd empty (Text.pieces_ne_nil s)
  · rw [split, List.concat_eq_append] at whole unbroken
    have lastUnbroken := unbroken last (by simp)
    have frontUnbroken : ∀ line ∈ front, Unbroken line :=
      fun line member => unbroken line (List.mem_append_left _ member)
    have single : Text.lines last = [] ∧ last = [] ∨ Text.lines last = [last] := by
      by_cases empty : last = []
      · left
        subst empty
        exact ⟨rfl, rfl⟩
      · exact Or.inr (Text.lines_of_unbroken lastUnbroken empty)
    rw [← whole, Text.lines_joinLines_append front last frontUnbroken,
      kindsOfText_joinLines mode unbroken, carry_read_joinLines mode unbroken,
      kindsOfLines_append, kindsOfLines_append, runLines_append, runLines_append]
    obtain ⟨kinds, modes⟩ := mode.lines_dropReturn front
    rw [kinds, modes]
    rcases single with ⟨noLine, rfl⟩ | oneLine
    · rw [noLine]
      simp
    · rw [oneLine]
      exact ⟨rfl, rfl⟩

theorem carry_next_of_isBlank {c : Char} (blank : Text.isBlank c = true) :
    (mode.next c).carry = mode.carry := by
  unfold next
  split
  · exact Carry.carry_mode mode.carry
  · rw [step_of_isBlank mode blank, carry_calm]

theorem read_blanks {blanks : Text} (allBlank : Text.AllBlank blanks) :
    (mode.read blanks).carry = mode.carry ∧ mode.kindsOfText blanks = [] := by
  induction blanks generalizing mode with
  | nil => exact ⟨rfl, rfl⟩
  | cons c rest ih =>
      have blank := allBlank c List.mem_cons_self
      obtain ⟨carries, kinds⟩ := ih (mode.next c) fun d member =>
        allBlank d (List.mem_cons_of_mem c member)
      have plain : mode.braceAt? c = none := by
        rw [braceAt?, braceKind?_of_isBlank blank, ite_self]
      rw [read_cons, kindsOfText, carries, kinds, plain, mode.carry_next_of_isBlank blank]
      exact ⟨rfl, rfl⟩

theorem read_mode_blanks {blanks : Text} (allBlank : Text.AllBlank blanks)
    (carry : Carry) : carry.mode.read blanks = carry.mode := by
  induction blanks with
  | nil => rfl
  | cons c rest ih =>
      have blank := allBlank c List.mem_cons_self
      have same : carry.mode.next c = carry.mode := by
        unfold next
        split
        · rw [Carry.carry_mode]
        · rw [step_of_isBlank _ blank, calm_mode]
      rw [read_cons, same]
      exact ih fun d member => allBlank d (List.mem_cons_of_mem c member)

/-- Cutting blanks off code changes neither its braces nor what it leaves open. -/
theorem read_trim :
    Mode.code.kindsOfText (Text.trim s) = Mode.code.kindsOfText s ∧
      (Mode.code.read (Text.trim s)).carry = (Mode.code.read s).carry := by
  obtain ⟨front, back, split, frontBlank, backBlank⟩ := Text.blanks_append_trim s
  generalize Text.trim s = middle at split
  subst split
  have start : Mode.code.read front = Mode.code := read_mode_blanks frontBlank .code
  rw [kindsOfText_append, kindsOfText_append, read_append, read_append, start,
    (read_blanks _ frontBlank).2, (read_blanks _ backBlank).2, (read_blanks _ backBlank).1,
    List.nil_append, List.append_nil]
  exact ⟨rfl, rfl⟩

end MigrationSquash.Code.Mode
