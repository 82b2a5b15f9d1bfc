import MigrationSquash.Proofs.Region.Signature
import MigrationSquash.Proofs.Scan.Layout

/-!
# Texts that declare nothing

A text is silent about a procedure if none of its lines would declare the procedure in code.
Main statement: it stays silent when blanks around it are cut off, when it is moved in or
out, and when silent texts are written below each other.
-/

set_option autoImplicit false

namespace MigrationSquash

namespace Text

theorem pieces_concat_of_ne {c : Char} (s : Text) (noFeed : c ≠ '\n') :
    ∃ front last, pieces s = front ++ [last] ∧ pieces (s ++ [c]) = front ++ [last ++ [c]] := by
  rcases List.eq_nil_or_concat (pieces s) with empty | ⟨front, last, split⟩
  · exact absurd empty (pieces_ne_nil s)
  · rw [List.concat_eq_append] at split
    refine ⟨front, last, split, ?_⟩
    have unbroken : ∀ line ∈ front ++ [last], Unbroken line := fun line member =>
      unbroken_of_mem_pieces (split ▸ member)
    have longer : joinLines (front ++ [last ++ [c]]) = s ++ [c] := by
      rw [← joinLines_pieces s, split]
      cases front with
      | nil => rfl
      | cons first more =>
          rw [joinLines_append (first :: more) [last ++ [c]] (by simp) (by simp),
            joinLines_append (first :: more) [last] (by simp) (by simp)]
          simp
    rw [← longer]
    apply pieces_joinLines (by simp)
    intro line member
    rcases List.mem_append.1 member with inFront | isLast
    · exact unbroken line (List.mem_append_left _ inFront)
    · rw [List.mem_singleton] at isLast
      subst isLast
      refine (unbroken last (by simp)).append ?_
      simpa [Unbroken] using noFeed.symm

end Text

namespace Code

variable {procedure : Procedure}

/-- Blanks before a line have no part in whether it declares. -/
theorem declares_blanks_append {blanks : Text} (allBlank : Text.AllBlank blanks) (carry : Carry)
    (line : Text) :
    declares procedure (carry, blanks ++ line) = declares procedure (carry, line) := by
  have trimmed : Text.trimStart (blanks ++ line) = Text.trimStart line :=
    List.dropWhile_append_of_pos allBlank
  have signs : procedure.Signs (blanks ++ line) ↔ procedure.Signs line := by
    constructor
    · intro whole
      exact whole.of_append_left (not_mem_of_allBlank allBlank (by decide))
    · intro part
      have longer := part.append (Procedure.endsWord_of_allBlank allBlank) []
      rwa [List.append_nil] at longer
  rw [Bool.eq_iff_iff, declares_iff, declares_iff, isCommented, isCommented, trimmed, signs]

theorem declares_nil (carry : Carry) : declares procedure (carry, []) = false := by
  cases declared : declares procedure (carry, []) with
  | false => rfl
  | true =>
      obtain ⟨-, ⟨before, signature, after, empty, -, isSignature⟩, -⟩ := declares_iff.1 declared
      obtain ⟨rest, rfl, -⟩ := isSignature.eq_cons
      simp at empty

theorem declares_of_silent {line : Text} (silent : declares procedure (.code, line) = false)
    (carry : Carry) : declares procedure (carry, line) = false := by
  cases declared : declares procedure (carry, line) with
  | false => rfl
  | true =>
      obtain ⟨rfl, -, -⟩ := declares_iff.1 declared
      rw [declared] at silent
      cases silent

theorem declares_of_not_signs {line : Text} (unsigned : ¬ procedure.Signs line) (carry : Carry) :
    declares procedure (carry, line) = false := by
  cases declared : declares procedure (carry, line) with
  | false => rfl
  | true => exact absurd (declares_iff.1 declared).2.1 unsigned

/-- No line of the text declares the procedure. -/
def Silent (procedure : Procedure) (s : Text) : Prop :=
  ∀ piece ∈ Text.pieces s, declares procedure (.code, piece) = false

namespace Silent

theorem nil : Silent procedure [] := by
  intro piece member
  obtain rfl := List.mem_singleton.1 member
  exact declares_nil .code

theorem append_feed {s t : Text} (first : Silent procedure s) (second : Silent procedure t) :
    Silent procedure (s ++ '\n' :: t) := by
  intro piece member
  rw [Text.pieces_append_feed] at member
  exact (List.mem_append.1 member).elim (first piece) (second piece)

theorem of_lines {lines : List Text} (unbroken : ∀ line ∈ lines, Text.Unbroken line)
    (silent : ∀ line ∈ lines, declares procedure (.code, line) = false) :
    Silent procedure (Text.joinLines lines) := by
  by_cases empty : lines = []
  · subst empty
    exact nil
  · intro piece member
    rw [Text.pieces_joinLines empty unbroken] at member
    exact silent piece member

theorem of_blank_cons {c : Char} {s : Text} (blank : Text.isBlank c = true)
    (silent : Silent procedure (c :: s)) : Silent procedure s := by
  by_cases feed : c = '\n'
  · intro piece member
    apply silent
    rw [feed, Text.pieces]
    exact List.mem_cons_of_mem _ member
  · obtain ⟨first, more, split, longer⟩ := Text.pieces_cons_of_ne s feed
    intro piece member
    rw [split] at member
    rcases List.mem_cons.1 member with rfl | later
    · have whole := silent (c :: piece) (by rw [longer]; exact List.mem_cons_self)
      rwa [← List.singleton_append, declares_blanks_append (by simpa [Text.AllBlank])] at whole
    · exact silent piece (by rw [longer]; exact List.mem_cons_of_mem _ later)

theorem of_append_blank {c : Char} {s : Text} (blank : Text.isBlank c = true)
    (silent : Silent procedure (s ++ [c])) : Silent procedure s := by
  by_cases feed : c = '\n'
  · intro piece member
    apply silent
    rw [feed, Text.pieces_append_feed]
    exact List.mem_append_left _ member
  · obtain ⟨front, last, split, longer⟩ := Text.pieces_concat_of_ne s feed
    intro piece member
    rw [split] at member
    rcases List.mem_append.1 member with inFront | isLast
    · exact silent piece (by rw [longer]; exact List.mem_append_left _ inFront)
    · obtain rfl := List.mem_singleton.1 isLast
      have whole := silent (piece ++ [c]) (by rw [longer]; simp)
      have noParenthesis : '(' ∉ [c] :=
        not_mem_of_allBlank (by simpa [Text.AllBlank]) (by decide)
      rwa [declares_append_of_not_mem noParenthesis] at whole

theorem of_blanks_append {blanks s : Text} (allBlank : Text.AllBlank blanks)
    (silent : Silent procedure (blanks ++ s)) : Silent procedure s := by
  induction blanks with
  | nil => exact silent
  | cons c rest ih =>
      exact ih (fun d member => allBlank d (List.mem_cons_of_mem c member))
        (silent.of_blank_cons (allBlank c List.mem_cons_self))

theorem of_append_blanks {s blanks : Text} (allBlank : Text.AllBlank blanks)
    (silent : Silent procedure (s ++ blanks)) : Silent procedure s := by
  induction blanks generalizing s with
  | nil => rwa [List.append_nil] at silent
  | cons c rest ih =>
      rw [List.append_cons] at silent
      have shorter := ih (fun d member => allBlank d (List.mem_cons_of_mem c member)) silent
      exact shorter.of_append_blank (allBlank c List.mem_cons_self)

theorem trim {s : Text} (silent : Silent procedure s) : Silent procedure (Text.trim s) := by
  obtain ⟨front, back, split, frontBlank, backBlank⟩ := Text.blanks_append_trim s
  rw [split] at silent
  exact (silent.of_blanks_append frontBlank).of_append_blanks backBlank

/-- The lines of a silent text are silent, whichever way they are split. -/
theorem of_mem_lines {s line : Text} (silent : Silent procedure s) (member : line ∈ Text.lines s) :
    declares procedure (.code, line) = false := by
  obtain ⟨piece, inPieces, returns, rfl, all⟩ := Text.exists_piece_of_mem_lines member
  have whole := silent _ inPieces
  have noParenthesis : '(' ∉ returns := fun inside => absurd (all '(' inside) (by decide)
  rwa [declares_append_of_not_mem noParenthesis] at whole

/-- A line that is moved declares nothing if it declared nothing before. -/
theorem relaid {carry : Carry} {line other : Text} (relaid : Relaid carry line other)
    (silent : declares procedure (.code, line) = false) :
    declares procedure (.code, other) = false := by
  cases relaid with
  | inside => exact silent
  | blank => exact declares_nil .code
  | moved outside visible split frontBlank backBlank =>
      rw [split, declares_blanks_append frontBlank] at silent
      rwa [declares_blanks_append backBlank, declares_trimEnd]

theorem indentLine {indent line : Text} (indentBlank : Text.AllBlank indent) (carry : Carry)
    (silent : declares procedure (.code, line) = false) :
    declares procedure (.code, Code.indentLine indent (carry, line)) = false :=
  relaid (relaid_indentLine indentBlank carry line) silent

theorem dedentLine {line : Text} (common : Nat) (carry : Carry)
    (silent : declares procedure (.code, line) = false) :
    declares procedure (.code, Code.dedentLine common (carry, line)) = false :=
  relaid (relaid_dedentLine common carry line) silent

theorem indentBlock {s indent : Text} (indentBlank : Text.AllBlank indent)
    (silent : Silent procedure s) :
    ∀ line ∈ Code.indentBlock s indent, declares procedure (.code, line) = false := by
  intro line member
  obtain ⟨⟨carry, old⟩, inside, rfl⟩ := List.mem_map.1 member
  exact indentLine indentBlank carry (silent.of_mem_lines (mem_of_mem_withCarry inside))

theorem dedentBody {s : Text} (firstIndent : Option Nat) (silent : Silent procedure s) :
    ∀ line ∈ Code.dedentBody s firstIndent, declares procedure (.code, line) = false := by
  intro line member
  unfold Code.dedentBody at member
  split at member
  · cases member
  · next first rest split_ =>
      have old : ∀ pair ∈ first :: rest, declares procedure (.code, pair.2) = false :=
        fun pair inside => silent.of_mem_lines (mem_of_mem_withCarry (split_ ▸ inside))
      rcases List.mem_cons.1 member with rfl | later
      · exact dedentLine 0 first.1 (old first List.mem_cons_self)
      · obtain ⟨⟨carry, other⟩, inside, rfl⟩ := List.mem_map.1 later
        exact dedentLine _ carry (old (carry, other) (List.mem_cons_of_mem _ inside))

end Silent

end Code

end MigrationSquash
