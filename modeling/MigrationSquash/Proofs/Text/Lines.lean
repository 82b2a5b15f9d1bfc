import MigrationSquash.Text.Lines

/-!
# Lines of a text

What splitting a text into lines gives when the text was made by joining lines, and which
lines a text has at all.
-/

set_option autoImplicit false

namespace MigrationSquash.Text

/-- A text on one line. -/
def Unbroken (s : Text) : Prop := '\n' ∉ s

theorem Unbroken.tail {c : Char} {s : Text} (unbroken : Unbroken (c :: s)) : Unbroken s :=
  fun member => unbroken (List.mem_cons_of_mem c member)

theorem Unbroken.head {c : Char} {s : Text} (unbroken : Unbroken (c :: s)) : c ≠ '\n' := by
  rintro rfl
  exact unbroken List.mem_cons_self

theorem Unbroken.of_subset {s t : Text} (unbroken : Unbroken s) (subset : ∀ c ∈ t, c ∈ s) :
    Unbroken t := fun member => unbroken (subset '\n' member)

theorem Unbroken.append {s t : Text} (left : Unbroken s) (right : Unbroken t) :
    Unbroken (s ++ t) := fun member => (List.mem_append.1 member).elim left right

@[simp] theorem joinLines_nil : joinLines [] = [] := rfl

@[simp] theorem joinLines_singleton (line : Text) : joinLines [line] = line := rfl

@[simp] theorem joinLines_cons_cons (line next : Text) (rest : List Text) :
    joinLines (line :: next :: rest) = line ++ '\n' :: joinLines (next :: rest) := by
  simp [joinLines, join]

theorem joinLines_append (left right : List Text) (leftNonempty : left ≠ [])
    (rightNonempty : right ≠ []) :
    joinLines (left ++ right) = joinLines left ++ '\n' :: joinLines right := by
  induction left with
  | nil => exact absurd rfl leftNonempty
  | cons line rest ih =>
      cases rest with
      | nil =>
          cases right with
          | nil => exact absurd rfl rightNonempty
          | cons next others => exact joinLines_cons_cons line next others
      | cons next others =>
          have later := ih (List.cons_ne_nil _ _)
          simp only [List.cons_append, joinLines_cons_cons, List.append_assoc] at later ⊢
          rw [later]

theorem joinLines_append_cons (start line : Text) (rest : List Text) :
    joinLines ((start ++ line) :: rest) = start ++ joinLines (line :: rest) := by
  cases rest with
  | nil => rfl
  | cons next others => rw [joinLines_cons_cons, joinLines_cons_cons, List.append_assoc]

theorem joinLines_concat_append (front : List Text) (line back : Text) :
    joinLines (front ++ [line ++ back]) = joinLines (front ++ [line]) ++ back := by
  cases front with
  | nil => rfl
  | cons first more =>
      rw [joinLines_append (first :: more) [line ++ back] (by simp) (by simp),
        joinLines_append (first :: more) [line] (by simp) (by simp), List.append_assoc]
      rfl

theorem pieces_cons_of_ne {c : Char} (s : Text) (noFeed : c ≠ '\n') :
    ∃ piece more, pieces s = piece :: more ∧ pieces (c :: s) = (c :: piece) :: more := by
  cases split : pieces s with
  | nil =>
      cases s with
      | nil => cases split
      | cons d rest =>
          rw [pieces.eq_def] at split
          split at split
          · cases split
          · cases split
          · split at split <;> cases split
  | cons piece more =>
      refine ⟨piece, more, rfl, ?_⟩
      rw [pieces, split]
      exact noFeed

/-- A text on one line is its only piece, and a line feed ends it. -/
theorem pieces_append {line : Text} (unbroken : Unbroken line) (s : Text) :
    pieces (line ++ '\n' :: s) = line :: pieces s ∧ pieces line = [line] := by
  induction line with
  | nil => exact ⟨by rw [List.nil_append, pieces], rfl⟩
  | cons c rest ih =>
      obtain ⟨whole, alone⟩ := ih unbroken.tail
      constructor
      · obtain ⟨piece, more, split, result⟩ :=
          pieces_cons_of_ne (rest ++ '\n' :: s) unbroken.head
        rw [whole] at split
        obtain ⟨rfl, rfl⟩ := List.cons.inj split
        exact result
      · obtain ⟨piece, more, split, result⟩ := pieces_cons_of_ne rest unbroken.head
        rw [alone] at split
        obtain ⟨rfl, rfl⟩ := List.cons.inj split
        exact result

theorem pieces_joinLines {lines : List Text} (nonempty : lines ≠ [])
    (unbroken : ∀ line ∈ lines, Unbroken line) : pieces (joinLines lines) = lines := by
  induction lines with
  | nil => exact absurd rfl nonempty
  | cons line rest ih =>
      have lineUnbroken := unbroken line List.mem_cons_self
      cases rest with
      | nil => exact (pieces_append lineUnbroken []).2
      | cons next others =>
          rw [joinLines_cons_cons, (pieces_append lineUnbroken _).1,
            ih (List.cons_ne_nil _ _) fun l member => unbroken l (List.mem_cons_of_mem _ member)]

theorem unbroken_of_mem_pieces {s line : Text} (member : line ∈ pieces s) : Unbroken line := by
  induction s generalizing line with
  | nil =>
      rw [pieces, List.mem_singleton] at member
      rw [member]
      exact List.not_mem_nil
  | cons c rest ih =>
      by_cases feed : c = '\n'
      · rw [feed, pieces] at member
        rcases List.mem_cons.1 member with rfl | later
        · exact List.not_mem_nil
        · exact ih later
      · obtain ⟨piece, more, split, result⟩ := pieces_cons_of_ne rest feed
        rw [result] at member
        rw [split] at ih
        rcases List.mem_cons.1 member with rfl | later
        · intro inside
          rcases List.mem_cons.1 inside with same | inPiece
          · exact feed same.symm
          · exact ih List.mem_cons_self inPiece
        · exact ih (List.mem_cons_of_mem _ later)

theorem pieces_ne_nil (s : Text) : pieces s ≠ [] := by
  intro empty
  have whole := joinLines_pieces s
  rw [empty] at whole
  subst whole
  cases empty

/-- Line feeds cut a text wherever they stand. -/
theorem pieces_append_feed (s t : Text) : pieces (s ++ '\n' :: t) = pieces s ++ pieces t := by
  have whole := joinLines_append (pieces s) (pieces t) (pieces_ne_nil s) (pieces_ne_nil t)
  rw [joinLines_pieces, joinLines_pieces] at whole
  rw [← whole]
  apply pieces_joinLines
  · simp [pieces_ne_nil s]
  · intro line member
    exact (List.mem_append.1 member).elim unbroken_of_mem_pieces unbroken_of_mem_pieces

/-- A text on one line goes on with the last piece before it. -/
theorem exists_pieces_append {t : Text} (unbroken : Unbroken t) (s : Text) :
    ∃ front last, pieces s = front ++ [last] ∧ pieces (s ++ t) = front ++ [last ++ t] := by
  rcases List.eq_nil_or_concat (pieces s) with empty | ⟨front, last, split⟩
  · exact absurd empty (pieces_ne_nil s)
  · rw [List.concat_eq_append] at split
    have lines : ∀ line ∈ front ++ [last], Unbroken line := fun line inside =>
      unbroken_of_mem_pieces (split ▸ inside)
    refine ⟨front, last, split, ?_⟩
    rw [← joinLines_pieces s, split, ← joinLines_concat_append]
    refine pieces_joinLines (by simp) fun line inside => ?_
    rcases List.mem_append.1 inside with inFront | isLast
    · exact lines line (List.mem_append_left _ inFront)
    · rw [List.mem_singleton.1 isLast]
      exact (lines last (by simp)).append unbroken

theorem lines_ne_nil {s : Text} (nonempty : s ≠ []) : lines s ≠ [] := by
  unfold lines
  split
  · exact absurd rfl nonempty
  · exact List.cons_ne_nil _ _
  · exact List.cons_ne_nil _ _
  · split <;> exact List.cons_ne_nil _ _

/-- A line without the carriage return that belongs to its end. -/
def dropReturn (line : Text) : Text := (before? ['\r'] line).getD line

theorem dropReturn_append_returns (line : Text) :
    ∃ returns : Text, line = dropReturn line ++ returns ∧ ∀ c ∈ returns, c = '\r' := by
  unfold dropReturn
  cases found : before? ['\r'] line with
  | some start => exact ⟨['\r'], before?_eq_some_iff.1 found, by simp⟩
  | none => exact ⟨[], (List.append_nil line).symm, by simp⟩

theorem dropReturn_of_getLast?_ne {line : Text} (ends : line.getLast? ≠ some '\r') :
    dropReturn line = line := by
  rw [dropReturn]
  cases found : before? ['\r'] line with
  | none => rfl
  | some start =>
      obtain rfl := before?_eq_some_iff.1 found
      exact absurd (by simp) ends

theorem lines_append_feed {line : Text} (rest : Text) (unbroken : Unbroken line) :
    lines (line ++ '\n' :: rest) = dropReturn line :: lines rest := by
  have noFeed : ∀ c ∈ line, c ≠ '\n' := fun c member same => unbroken (same ▸ member)
  unfold dropReturn
  cases found : before? ['\r'] line with
  | some start =>
      obtain rfl := before?_eq_some_iff.1 found
      have startNoFeed : ∀ c ∈ start, c ≠ '\n' := fun c member =>
        noFeed c (List.mem_append_left _ member)
      have later := lines_append_returnLineFeed rest startNoFeed
      rwa [List.append_assoc]
  | none =>
      apply lines_append_lineFeed
      have noReturn : line.getLast? ≠ some '\r' := by
        intro ends
        obtain ⟨start, split⟩ := List.getLast?_eq_some_iff.1 ends
        rw [before?_eq_some_iff.2 split] at found
        cases found
      simpa [isLine, noReturn] using noFeed

theorem lines_of_unbroken {line : Text} (unbroken : Unbroken line) (nonempty : line ≠ []) :
    lines line = [line] := by
  induction line with
  | nil => exact absurd rfl nonempty
  | cons c rest ih =>
      have noReturn : ∀ more, c = '\r' → rest ≠ '\n' :: more := by
        rintro more - rfl
        exact unbroken.tail List.mem_cons_self
      rw [lines]
      · cases rest with
        | nil => rfl
        | cons d others => rw [ih unbroken.tail (List.cons_ne_nil _ _)]
      · exact unbroken.head
      · exact noReturn

/-- Joined lines split again, less a carriage return before each line feed. -/
theorem lines_joinLines_append (front : List Text) (last : Text)
    (unbroken : ∀ line ∈ front, Unbroken line) :
    lines (joinLines (front ++ [last])) = front.map dropReturn ++ lines last := by
  induction front with
  | nil => rfl
  | cons line rest ih =>
      have later := ih fun l member => unbroken l (List.mem_cons_of_mem _ member)
      have joined := joinLines_append [line] (rest ++ [last]) (by simp) (by simp)
      rw [List.singleton_append, joinLines_singleton] at joined
      rw [List.cons_append, joined, lines_append_feed _ (unbroken line List.mem_cons_self), later]
      rfl

theorem exists_piece_of_mem_lines {s line : Text} (member : line ∈ lines s) :
    ∃ piece ∈ pieces s, ∃ returns : Text, piece = line ++ returns ∧ ∀ c ∈ returns, c = '\r' := by
  have general : ∀ ls : List Text, (∀ l ∈ ls, Unbroken l) → line ∈ lines (joinLines ls) →
      ∃ piece ∈ ls, ∃ returns : Text, piece = line ++ returns ∧ ∀ c ∈ returns, c = '\r' := by
    intro ls
    induction ls with
    | nil => intro _ inside; cases inside
    | cons first rest ih =>
        intro unbroken inside
        have firstUnbroken := unbroken first List.mem_cons_self
        cases rest with
        | nil =>
            by_cases empty : first = []
            · subst empty
              cases inside
            · rw [joinLines_singleton, lines_of_unbroken firstUnbroken empty,
                List.mem_singleton] at inside
              exact ⟨first, List.mem_cons_self, [], by simp [inside], by simp⟩
        | cons next others =>
            rw [joinLines_cons_cons, lines_append_feed _ firstUnbroken] at inside
            rcases List.mem_cons.1 inside with rfl | later
            · exact ⟨first, List.mem_cons_self, dropReturn_append_returns first⟩
            · obtain ⟨piece, inRest, found⟩ :=
                ih (fun l inRest => unbroken l (List.mem_cons_of_mem _ inRest)) later
              exact ⟨piece, List.mem_cons_of_mem _ inRest, found⟩
  apply general (pieces s) fun l inside => unbroken_of_mem_pieces inside
  rwa [joinLines_pieces]

theorem unbroken_of_mem_lines {s line : Text} (member : line ∈ lines s) : Unbroken line := by
  obtain ⟨piece, inPieces, returns, split, -⟩ := exists_piece_of_mem_lines member
  apply (unbroken_of_mem_pieces inPieces).of_subset
  intro c inLine
  rw [split]
  exact List.mem_append_left _ inLine

theorem mem_joinLines {ls : List Text} {c : Char} (member : c ∈ joinLines ls) :
    c = '\n' ∨ ∃ line ∈ ls, c ∈ line := by
  induction ls with
  | nil => cases member
  | cons line rest ih =>
      cases rest with
      | nil => exact Or.inr ⟨line, List.mem_cons_self, member⟩
      | cons next others =>
          rw [joinLines_cons_cons] at member
          rcases List.mem_append.1 member with inLine | behind
          · exact Or.inr ⟨line, List.mem_cons_self, inLine⟩
          · rcases List.mem_cons.1 behind with feed | later
            · exact Or.inl feed
            · rcases ih later with feed | ⟨other, inRest, inside⟩
              · exact Or.inl feed
              · exact Or.inr ⟨other, List.mem_cons_of_mem _ inRest, inside⟩

theorem mem_joinLines_of_mem {ls : List Text} {line : Text} {c : Char} (member : line ∈ ls)
    (inside : c ∈ line) : c ∈ joinLines ls := by
  induction ls with
  | nil => cases member
  | cons first rest ih =>
      cases rest with
      | nil =>
          obtain rfl := List.mem_singleton.1 member
          exact inside
      | cons next others =>
          rw [joinLines_cons_cons]
          rcases List.mem_cons.1 member with rfl | later
          · exact List.mem_append_left _ inside
          · exact List.mem_append_right _ (List.mem_cons_of_mem _ (ih later))

theorem not_mem_of_mem_pieces {s piece : Text} {c : Char} (absent : c ∉ s)
    (member : piece ∈ pieces s) : c ∉ piece := by
  intro inside
  rw [← joinLines_pieces s] at absent
  exact absent (mem_joinLines_of_mem member inside)

theorem not_mem_of_mem_lines {s line : Text} {c : Char} (absent : c ∉ s)
    (member : line ∈ lines s) : c ∉ line := by
  obtain ⟨piece, inPieces, returns, rfl, -⟩ := exists_piece_of_mem_lines member
  exact fun inside => not_mem_of_mem_pieces absent inPieces (List.mem_append_left _ inside)

/-- Without carriage returns the lines of a text are its pieces, but for an empty last one. -/
theorem lines_eq_pieces {s : Text} (noReturn : '\r' ∉ s) :
    ∃ front last, pieces s = front ++ [last] ∧ lines s = front ++ lines last ∧
      (last = [] ∨ lines last = [last]) := by
  rcases List.eq_nil_or_concat (pieces s) with empty | ⟨front, last, split⟩
  · exact absurd empty (pieces_ne_nil s)
  · rw [List.concat_eq_append] at split
    refine ⟨front, last, split, ?_, ?_⟩
    · have unbroken : ∀ line ∈ front, Unbroken line := fun line member =>
        unbroken_of_mem_pieces (s := s) (by rw [split]; exact List.mem_append_left _ member)
      have same : front.map dropReturn = front := by
        refine (List.map_congr_left fun line member => ?_).trans (List.map_id front)
        have inPieces : line ∈ pieces s := by
          rw [split]
          exact List.mem_append_left _ member
        exact dropReturn_of_getLast?_ne fun ends =>
          not_mem_of_mem_pieces noReturn inPieces (List.mem_of_getLast? ends)
      rw [← joinLines_pieces s, split, lines_joinLines_append front last unbroken, same]
    · by_cases empty : last = []
      · exact Or.inl empty
      · right
        apply lines_of_unbroken _ empty
        exact unbroken_of_mem_pieces (s := s) (by rw [split]; simp)

end MigrationSquash.Text
