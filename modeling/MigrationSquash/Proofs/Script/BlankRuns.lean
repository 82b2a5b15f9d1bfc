import MigrationSquash.Proofs.Script.Rows

/-!
# Runs of blank lines

A text behind a line feed starts with a run of blank lines, perhaps of none, and what follows the
run starts with no blank line.  Main statements: shortening the runs of a text goes through it
either by a character or by a whole run, and leaves no run of more than two blank lines.
-/

set_option autoImplicit false

namespace MigrationSquash.Script

open Text (AllBlank isBlank isIndent)

/-- Lines with a line feed behind each of them. -/
def ended (lines : List Text) : Text := lines.flatMap fun line => line ++ ['\n']

@[simp] theorem ended_nil : ended [] = [] := rfl

@[simp] theorem ended_cons (line : Text) (rest : List Text) :
    ended (line :: rest) = line ++ '\n' :: ended rest := by
  simp [ended]

/-- Lines that consist of blanks which can indent a line. -/
def Indents (lines : List Text) : Prop := ∀ line ∈ lines, ∀ c ∈ line, isIndent c = true

section Blank

variable {c : Char} {s rest : Text} {indent : Text} {blanks : List Text}

theorem ne_feed_of_isIndent (indents : isIndent c = true) : c ≠ '\n' := by
  rintro rfl
  exact absurd indents (by decide)

theorem blankLines_indent_append (all : ∀ c ∈ indent, isIndent c = true) (pending : Nat)
    (s : Text) : blankLines pending (indent ++ s) = blankLines (pending + indent.length) s := by
  induction indent generalizing pending with
  | nil => rfl
  | cons c more ih =>
      have first := all c List.mem_cons_self
      rw [List.cons_append, blankLines, if_neg (ne_feed_of_isIndent first), if_pos first,
        ih fun d member => all d (List.mem_cons_of_mem _ member), List.length_cons]
      congr 1
      omega

theorem blankLines_ended (indents : Indents blanks) (s : Text) :
    (blankLines 0 (ended blanks ++ s)).1 = blanks.length + (blankLines 0 s).1 := by
  induction blanks with
  | nil => simp
  | cons line more ih =>
      have later := ih fun other member => indents other (List.mem_cons_of_mem _ member)
      rw [ended_cons, List.append_assoc,
        blankLines_indent_append (indents line List.mem_cons_self), List.cons_append, blankLines,
        if_pos rfl, List.length_cons]
      dsimp only
      omega

/-- Behind some blanks of a line, the run of blank lines in a text is counted. -/
theorem exists_blankLines_behind (all : ∀ c ∈ indent, isIndent c = true) (s : Text) :
    ∃ blanks rest, Indents blanks ∧ indent ++ s = ended blanks ++ rest ∧
      blankLines indent.length s = (blanks.length, (ended blanks).length) ∧
      (blankLines 0 rest).1 = 0 := by
  induction s generalizing indent with
  | nil =>
      refine ⟨[], indent, by simp [Indents], by simp, rfl, ?_⟩
      have counted := blankLines_indent_append all 0 []
      rw [List.append_nil] at counted
      rw [counted, blankLines]
  | cons c s ih =>
      by_cases feed : c = '\n'
      · obtain ⟨blanks, rest, indents, split, counted, stops⟩ := @ih [] (by simp)
        refine ⟨indent :: blanks, rest, ?_, ?_, ?_, stops⟩
        · simpa [Indents] using And.intro all indents
        · simpa [feed] using split
        · rw [List.length_nil] at counted
          rw [blankLines, if_pos feed, counted]
          simp
          omega
      · by_cases indents : isIndent c = true
        · have longer : ∀ d ∈ indent ++ [c], isIndent d = true :=
            List.forall_mem_append.2 ⟨all, by simpa using indents⟩
          obtain ⟨blanks, rest, found⟩ := ih longer
          refine ⟨blanks, rest, ?_⟩
          rw [blankLines, if_neg feed, if_pos indents]
          simpa using found
        · refine ⟨[], indent ++ c :: s, by simp [Indents], by simp, ?_, ?_⟩
          · rw [blankLines, if_neg feed, if_neg indents]
            rfl
          · rw [blankLines_indent_append all, blankLines, if_neg feed, if_neg indents]

/-- A text starts with a run of blank lines, and what follows starts with none. -/
theorem exists_blankLines (s : Text) :
    ∃ blanks rest, Indents blanks ∧ s = ended blanks ++ rest ∧
      blankLines 0 s = (blanks.length, (ended blanks).length) ∧ (blankLines 0 rest).1 = 0 :=
  @exists_blankLines_behind [] (by simp) s

theorem allBlank_ended (indents : Indents blanks) : AllBlank (ended blanks) := by
  induction blanks with
  | nil => simp [AllBlank]
  | cons line more ih =>
      have here : AllBlank line := fun c member =>
        Text.isBlank_of_isIndent (indents line List.mem_cons_self c member)
      have later := ih fun other member => indents other (List.mem_cons_of_mem _ member)
      rw [ended_cons]
      exact here.append (later.cons (by decide))

end Blank

/-- Shortening the runs of a text keeps a character that starts no long run, and goes on behind
a long run. -/
theorem collapse_induction {motive : Text → Text → Prop} (nil : motive [] [])
    (keep : ∀ c s, (c = '\n' → (blankLines 0 s).1 < 3) → motive s (collapseFrom 0 s) →
      motive (c :: s) (c :: collapseFrom 0 s))
    (run : ∀ blanks rest, Indents blanks → 3 ≤ blanks.length → (blankLines 0 rest).1 = 0 →
      motive rest (collapseFrom 0 rest) →
      motive ('\n' :: (ended blanks ++ rest)) (['\n', '\n', '\n'] ++ collapseFrom 0 rest))
    (s : Text) : motive s (collapseFrom 0 s) := by
  induction length : s.length using Nat.strongRecOn generalizing s with
  | ind n ih =>
      cases s with
      | nil => exact nil
      | cons c s =>
          rw [List.length_cons] at length
          rw [collapseFrom_cons]
          split
          · rename_i long
            obtain ⟨rfl, many⟩ := long
            obtain ⟨blanks, rest, indents, split, counted, stops⟩ := exists_blankLines s
            rw [counted] at many ⊢
            subst split
            rw [collapseFrom_append]
            rw [List.length_append] at length
            exact run blanks rest indents many stops (ih rest.length (by omega) rest rfl)
          · rename_i short
            refine keep c s (fun feed => ?_) (ih s.length (by omega) s rfl)
            exact Nat.lt_of_not_le fun many => short ⟨feed, many⟩

/-- No run of more than two blank lines is left, and the short runs are. -/
theorem noGap_collapse_and_blankLines (s : Text) :
    NoGap (collapseFrom 0 s) ∧ ∀ pending, (blankLines pending s).1 < 3 →
      (blankLines pending (collapseFrom 0 s)).1 = (blankLines pending s).1 := by
  refine collapse_induction
    (motive := fun s t => NoGap t ∧ ∀ pending, (blankLines pending s).1 < 3 →
      (blankLines pending t).1 = (blankLines pending s).1) ?nil ?keep ?run s
  case nil =>
    refine ⟨?_, fun _ _ => rfl⟩
    intro before after split
    simp at split
  case keep =>
    rintro c s short ⟨noGap, counted⟩
    constructor
    · rw [noGap_cons_iff]
      refine ⟨fun feed => ?_, noGap⟩
      have few := short feed
      rw [counted 0 few]
      exact few
    · intro pending
      rw [blankLines, blankLines]
      split
      · intro few
        dsimp only at few ⊢
        rw [counted 0 (by omega)]
      · split
        · exact counted (pending + 1)
        · exact fun _ => rfl
  case run =>
    rintro blanks rest indents many stops ⟨noGap, counted⟩
    have none : (blankLines 0 (collapseFrom 0 rest)).1 = 0 := by
      rw [counted 0 (by omega), stops]
    constructor
    · simp [noGap_cons_iff, noGap, blankLines, none]
    · intro pending few
      rw [blankLines, if_pos rfl] at few
      dsimp only at few
      rw [blankLines_ended indents] at few
      omega

theorem noGap_collapse (s : Text) : NoGap (collapseFrom 0 s) :=
  (noGap_collapse_and_blankLines s).1

end MigrationSquash.Script
