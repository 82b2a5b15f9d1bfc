import Mathlib.Data.Bool.AllAny
import Mathlib.Data.List.Infix
import MigrationSquash.Proofs.Script.Patterns
import MigrationSquash.Script.Sanitize

/-!
# Words of a text

Which words and phrases a text holds anywhere, in either case.  Main statements: a text lacks a
phrase if the parts on both sides of a character lack it and the phrase avoids the character, and
a phrase that a text with a semicolon at its end lacks is read nowhere in it, whatever follows.
-/

set_option autoImplicit false

namespace MigrationSquash.Script

open Text (AllBlank SameFolded foldCase isBlank)

section Pieces

variable {c : Char} {s t read : Text}

theorem prefix_of_append_cons (absent : c ∉ read) (starts : read <+: s ++ c :: t) : read <+: s := by
  rcases List.prefix_or_prefix_of_prefix starts (List.prefix_append s (c :: t)) with
    within | ⟨more, rfl⟩
  · exact within
  · cases more with
    | nil => rw [List.append_nil]
    | cons d others =>
        obtain ⟨rest, split⟩ := starts
        rw [List.append_assoc] at split
        obtain ⟨rfl, -⟩ := List.cons.inj (List.append_cancel_left split)
        exact absurd (List.mem_append_right _ List.mem_cons_self) absent

/-- A piece without a character stands before the character or behind it. -/
theorem infix_of_append_cons (absent : c ∉ read) (inside : read <:+: s ++ c :: t) :
    read <:+: s ∨ read <:+: t := by
  induction s with
  | nil =>
      rcases List.infix_cons_iff.1 inside with starts | later
      · left
        exact (prefix_of_append_cons (s := []) absent starts).isInfix
      · exact Or.inr later
  | cons d rest ih =>
      rcases List.infix_cons_iff.1 inside with starts | later
      · left
        exact (prefix_of_append_cons (s := d :: rest) absent starts).isInfix
      · exact (ih later).imp_left fun found => found.trans (List.suffix_cons d rest).isInfix

end Pieces

/-- A pattern that reads the texts of one form, whatever stands before and behind them. -/
def Spells (pattern : Pattern) (form : Text → Prop) : Prop :=
  ∀ cursor stop, stop ∈ pattern cursor ↔ ∃ read, cursor.Reads read stop ∧ form read

/-- A pattern that is read nowhere in a text. -/
def Lacks (pattern : Pattern) (s : Text) : Prop := ∀ t ∈ s.tails, pattern ⟨none, t⟩ = []

instance (pattern : Pattern) (s : Text) : Decidable (Lacks pattern s) :=
  inferInstanceAs (Decidable (∀ t ∈ s.tails, pattern ⟨none, t⟩ = []))

/-- A pattern that is read at no place of a text, whatever stands before it, if another text
follows. -/
def Free (pattern : Pattern) (s t : Text) : Prop :=
  ∀ left rest, rest ≠ [] → rest <:+ s → pattern ⟨left, rest ++ t⟩ = []

section Spells

variable {pattern : Pattern} {form : Text → Prop} {c : Char} {s t : Text}

theorem Spells.lacks_iff (spells : Spells pattern form) :
    Lacks pattern s ↔ ∀ read, form read → ¬ read <:+: s := by
  constructor
  · rintro lacks read formed ⟨before, after, rfl⟩
    have nothing := lacks (read ++ after)
      ((List.mem_tails _ _).2 ⟨before, by rw [List.append_assoc]⟩)
    have found := (spells ⟨none, read ++ after⟩ _).2
      ⟨read, Cursor.reads_append none read after, formed⟩
    rw [nothing] at found
    cases found
  · intro absent t member
    rw [List.eq_nil_iff_forall_not_mem]
    intro stop found
    obtain ⟨read, reads, formed⟩ := (spells _ _).1 found
    have starts : read <+: t := ⟨stop.rest, reads.1.symm⟩
    exact absent read formed (starts.isInfix.trans ((List.mem_tails _ _).1 member).isInfix)

/-- A form without a character is lacked by a text if the parts on both sides of the character
lack it. -/
theorem Spells.lacks_append_cons (spells : Spells pattern form)
    (avoids : ∀ read, form read → c ∉ read) (before : Lacks pattern s) (behind : Lacks pattern t) :
    Lacks pattern (s ++ c :: t) := by
  rw [spells.lacks_iff] at before behind ⊢
  intro read formed inside
  exact (infix_of_append_cons (avoids read formed) inside).elim (before read formed)
    (behind read formed)

/-- What is read of a text that ends with a character outside of the form is read within the text. -/
theorem Spells.exists_read (spells : Spells pattern form) (avoids : ∀ read, form read → c ∉ read)
    (ends : s.getLast? = some c) {left : Option Char} (found : pattern ⟨left, s ++ t⟩ ≠ []) :
    ∃ read, form read ∧ read <+: s := by
  obtain ⟨stop, found⟩ := List.exists_mem_of_ne_nil _ found
  obtain ⟨read, reads, formed⟩ := (spells _ _).1 found
  obtain ⟨front, rfl⟩ := List.getLast?_eq_some_iff.1 ends
  have starts : read <+: front ++ c :: t := ⟨stop.rest, by rw [← reads.1, List.append_assoc]; rfl⟩
  have within : read <+: front := prefix_of_append_cons (avoids read formed) starts
  exact ⟨read, formed, within.trans (List.prefix_append front [c])⟩

theorem Spells.free (spells : Spells pattern form) (avoids : ∀ read, form read → c ∉ read)
    (ends : s.getLast? = some c) (lacks : Lacks pattern s) (t : Text) : Free pattern s t := by
  rw [spells.lacks_iff] at lacks
  intro left rest nonempty behind
  by_contra found
  have last : rest.getLast? = some c := by
    obtain ⟨before, rfl⟩ := behind
    rwa [List.getLast?_append_of_ne_nil _ nonempty] at ends
  obtain ⟨read, formed, within⟩ := spells.exists_read avoids last found
  exact lacks read formed (within.isInfix.trans behind.isInfix)

end Spells

section Sequence

open Pattern

variable {pattern : Pattern} {patterns more : List Pattern} {cursor : Cursor} {s t : Text}

theorem sequence_append (patterns more : List Pattern) (cursor : Cursor) :
    sequence (patterns ++ more) cursor = (sequence patterns cursor).flatMap (sequence more) := by
  induction patterns generalizing cursor with
  | nil => exact (List.flatMap_singleton _ _).symm
  | cons pattern rest ih =>
      rw [List.cons_append, Pattern.sequence, Pattern.sequence, List.flatMap_assoc]
      exact List.flatMap_congr fun middle _ => ih middle

theorem Free.sequence (free : Free pattern s t) (more : List Pattern) :
    Free (.sequence (pattern :: more)) s t := by
  intro left rest nonempty behind
  change (pattern ⟨left, rest ++ t⟩).flatMap (Pattern.sequence more) = []
  rw [free left rest nonempty behind]
  rfl

end Sequence

section Words

open Pattern

variable {first second : Text} {c : Char} {s t : Text}

theorem spells_word (w : Text) : Spells (.word w) (SameFolded · w) := fun _ _ => mem_word_iff

/-- Two words with blanks between them. -/
def Phrased (first second read : Text) : Prop :=
  ∃ start blanks stop, read = start ++ (blanks ++ stop) ∧ SameFolded start first ∧
    (blanks ≠ [] ∧ AllBlank blanks) ∧ SameFolded stop second

theorem spells_phrase (first second : Text) :
    Spells (phrase [first, second]) (Phrased first second) := by
  intro cursor stop
  change stop ∈ sequence [word first, someBlanks, word second] cursor ↔ _
  simp only [mem_sequence_cons_iff, mem_sequence_nil_iff, someBlanks, mem_word_iff, mem_someRun_iff]
  constructor
  · rintro ⟨_, ⟨start, startReads, same⟩, _, ⟨blanks, blankReads, blank⟩, _,
      ⟨final, finalReads, sameFinal⟩, rfl⟩
    exact ⟨_, startReads.trans (blankReads.trans finalReads), start, blanks, final, rfl, same, blank,
      sameFinal⟩
  · rintro ⟨_, reads, start, blanks, final, rfl, same, blank, sameFinal⟩
    obtain ⟨middle, startReads, later⟩ := reads.split
    obtain ⟨further, blankReads, finalReads⟩ := later.split
    exact ⟨middle, ⟨start, startReads, same⟩, further, ⟨blanks, blankReads, blank⟩, stop,
      ⟨final, finalReads, sameFinal⟩, rfl⟩

theorem not_mem_of_sameFolded {w read : Text} (apart : ∀ d ∈ w, foldCase d ≠ foldCase c)
    (same : SameFolded read w) : c ∉ read := by
  intro inside
  have folded : foldCase c ∈ w.map foldCase := same ▸ List.mem_map_of_mem inside
  obtain ⟨d, member, equal⟩ := List.mem_map.1 folded
  exact apart d member equal

/-- Whether a phrase holds a character nowhere. -/
def Avoids (first second : Text) (c : Char) : Prop :=
  isBlank c = false ∧ ∀ d ∈ first ++ second, foldCase d ≠ foldCase c

instance (first second : Text) (c : Char) : Decidable (Avoids first second c) :=
  decidable_of_iff
    (isBlank c = false ∧ (first ++ second).all (fun d => foldCase d ≠ foldCase c) = true)
    (and_congr_right' List.all_iff_forall_prop)

theorem Avoids.not_mem (avoids : Avoids first second c) {read : Text}
    (phrased : Phrased first second read) : c ∉ read := by
  obtain ⟨start, blanks, stop, rfl, same, blank, sameStop⟩ := phrased
  obtain ⟨visible, apart⟩ := avoids
  rw [List.mem_append, List.mem_append]
  rintro (inside | inside | inside)
  · exact not_mem_of_sameFolded (fun d member => apart d (List.mem_append_left _ member)) same inside
  · rw [blank.2 c inside] at visible
    cases visible
  · exact not_mem_of_sameFolded (fun d member => apart d (List.mem_append_right _ member)) sameStop
      inside

theorem lacks_phrase_append_cons (avoids : Avoids first second c)
    (before : Lacks (phrase [first, second]) s) (behind : Lacks (phrase [first, second]) t) :
    Lacks (phrase [first, second]) (s ++ c :: t) :=
  (spells_phrase first second).lacks_append_cons (fun _ => avoids.not_mem) before behind

theorem free_phrase (avoids : Avoids first second c) (ends : s.getLast? = some c)
    (lacks : Lacks (phrase [first, second]) s) (t : Text) : Free (phrase [first, second]) s t :=
  (spells_phrase first second).free (fun _ => avoids.not_mem) ends lacks t

/-- A text without the second word of a phrase lacks the phrase. -/
theorem lacks_phrase_of_lacks_word (lacks : Lacks (.word second) s) :
    Lacks (phrase [first, second]) s := by
  rw [(spells_word second).lacks_iff] at lacks
  rw [(spells_phrase first second).lacks_iff]
  rintro _ ⟨start, blanks, stop, rfl, -, -, same⟩ inside
  refine lacks stop same (List.IsInfix.trans ?_ inside)
  exact ⟨start ++ blanks, [], by simp only [List.append_assoc, List.append_nil]⟩

/-- A text without blanks lacks every phrase. -/
theorem lacks_phrase_of_no_blank (noBlank : ∀ d ∈ s, isBlank d = false) :
    Lacks (phrase [first, second]) s := by
  rw [(spells_phrase first second).lacks_iff]
  rintro _ ⟨start, blanks, stop, rfl, -, ⟨nonempty, allBlank⟩, -⟩ inside
  obtain ⟨d, rest, rfl⟩ := List.exists_cons_of_ne_nil nonempty
  have visible := noBlank d (inside.subset (by simp))
  rw [allBlank d List.mem_cons_self] at visible
  cases visible

end Words

end MigrationSquash.Script
