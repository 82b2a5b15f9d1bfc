import MigrationSquash.Text.Basic

/-!
# Lines

Splitting a text into lines and joining them again.  A line ends at a line feed, and a
carriage return directly before it belongs to the end of the line.  Main statements: lines
that contain no such ending are what their text splits into when each of them is ended,
and the pieces between line feeds join to the text they come from.
-/

set_option autoImplicit false

namespace MigrationSquash.Text

/-- The lines of a text.  The last one need not end, and a text that ends with a line
feed has no empty line after it. -/
def lines : Text → List Text
  | [] => []
  | '\n' :: rest => [] :: lines rest
  | '\r' :: '\n' :: rest => [] :: lines rest
  | c :: rest =>
      match lines rest with
      | [] => [[c]]
      | line :: more => (c :: line) :: more

/-- The pieces between line feeds, of which every text has at least one. -/
def pieces : Text → List Text
  | [] => [[]]
  | '\n' :: rest => [] :: pieces rest
  | c :: rest =>
      match pieces rest with
      | [] => [[c]]
      | piece :: more => (c :: piece) :: more

/-- The lines with a line feed between each two of them. -/
def joinLines (ls : List Text) : Text := join ['\n'] ls

/-- Whether a line feed may follow the text without taking a character of it along. -/
def isLine (line : Text) : Bool := line.all (· ≠ '\n') && line.getLast? ≠ some '\r'

theorem isLine_of_cons {c next : Char} {rest : Text} (line : isLine (c :: next :: rest) = true) :
    isLine (next :: rest) = true := by
  simp only [isLine, List.all_cons, Bool.and_eq_true, List.getLast?_cons_cons] at line ⊢
  exact ⟨line.1.2, line.2⟩

/-- A line that is ended by a line feed is the first line of the text. -/
theorem lines_append_lineFeed {line : Text} (rest : Text) (whole : isLine line = true) :
    lines (line ++ '\n' :: rest) = line :: lines rest := by
  induction line with
  | nil => simp [lines]
  | cons c tail inductionHypothesis =>
      have notFeed : c ≠ '\n' := by
        simp only [isLine, List.all_cons, Bool.and_eq_true, decide_eq_true_eq] at whole
        exact whole.1.1
      cases tail with
      | nil =>
          have notReturn : c ≠ '\r' := by
            simpa [isLine, notFeed] using whole
          simp only [List.cons_append, List.nil_append]
          rw [lines]
          · simp [lines]
          · exact notFeed
          · intro _ isReturn
            exact absurd isReturn notReturn
      | cons next others =>
          have tailWhole := inductionHypothesis (isLine_of_cons whole)
          have nextNotFeed : next ≠ '\n' := by
            have tailLine := isLine_of_cons whole
            simp only [isLine, List.all_cons, Bool.and_eq_true, decide_eq_true_eq] at tailLine
            exact tailLine.1.1
          simp only [List.cons_append] at tailWhole ⊢
          rw [lines]
          · rw [tailWhole]
          · exact notFeed
          · intro _ _ isFeed
            exact absurd (List.cons.inj isFeed).1 nextNotFeed

/-- A carriage return before a line feed belongs to the end of the line. -/
theorem lines_append_returnLineFeed {line : Text} (rest : Text)
    (noFeed : ∀ c ∈ line, c ≠ '\n') :
    lines (line ++ '\r' :: '\n' :: rest) = line :: lines rest := by
  induction line with
  | nil => simp [lines]
  | cons c tail inductionHypothesis =>
      have tailWhole := inductionHypothesis fun d member => noFeed d (List.mem_cons_of_mem c member)
      have notFeed : c ≠ '\n' := noFeed c List.mem_cons_self
      rw [List.cons_append, lines]
      · rw [tailWhole]
      · exact notFeed
      · intro _ _ afterReturn
        cases tail with
        | nil => simp at afterReturn
        | cons next others =>
            exact noFeed next (by simp) (List.cons.inj afterReturn).1

theorem joinLines_pieces (s : Text) : joinLines (pieces s) = s := by
  fun_induction pieces s with
  | case1 => rfl
  | case2 rest inductionHypothesis =>
      cases split : pieces rest with
      | nil =>
          rw [split] at inductionHypothesis
          simp [joinLines, join] at inductionHypothesis
          subst inductionHypothesis
          simp [pieces] at split
      | cons piece more =>
          rw [split] at inductionHypothesis
          simpa [joinLines, join] using inductionHypothesis
  | case3 c rest notFeed split inductionHypothesis =>
      rw [split] at inductionHypothesis
      simp [joinLines, join] at inductionHypothesis
      subst inductionHypothesis
      simp [pieces] at split
  | case4 c rest notFeed piece more split inductionHypothesis =>
      rw [split] at inductionHypothesis
      cases more with
      | nil => simpa [joinLines, join] using inductionHypothesis
      | cons next others => simpa [joinLines, join] using inductionHypothesis

end MigrationSquash.Text
