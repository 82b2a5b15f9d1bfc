import Mathlib.Data.List.DropRight
import MigrationSquash.Proofs.Scan.Mode

/-!
# Blanks in source

Blanks are no braces and open and close nothing.  So what may be cut off the end of a line
or written before it changes neither its structural braces nor what the line leaves open,
with one exception that the other modules have to watch: behind an opened verbatim string
blanks are content.
-/

set_option autoImplicit false

namespace MigrationSquash

namespace Text

def AllBlank (s : Text) : Prop := ∀ c ∈ s, isBlank c = true

theorem allBlank_iff {s : Text} : AllBlank s ↔ isBlankText s = true := List.all_eq_true.symm

theorem AllBlank.append {s t : Text} (first : AllBlank s) (second : AllBlank t) :
    AllBlank (s ++ t) :=
  fun c member => (List.mem_append.1 member).elim (first c) (second c)

theorem AllBlank.cons {c : Char} {s : Text} (first : isBlank c = true) (rest : AllBlank s) :
    AllBlank (c :: s) :=
  List.forall_mem_cons.2 ⟨first, rest⟩

theorem allBlank_singleton {c : Char} (blank : isBlank c = true) : AllBlank [c] :=
  List.forall_mem_singleton.2 blank

theorem allBlank_indentation (line : Text) : AllBlank (indentation line) :=
  fun _ member => isBlank_of_isIndent (List.mem_takeWhile_imp member)

theorem isIndent_of_mem_indentStep : ∀ c ∈ indentStep, isIndent c = true :=
  List.all_eq_true.1 (by decide)

theorem allBlank_indentStep : AllBlank indentStep :=
  fun c member => isBlank_of_isIndent (isIndent_of_mem_indentStep c member)

/-- A text of blanks between what it starts with and what it ends with. -/
theorem trimEnd_append_blanks (s : Text) :
    ∃ blanks : Text, s = trimEnd s ++ blanks ∧ AllBlank blanks := by
  refine ⟨(s.reverse.takeWhile isBlank).reverse, ?_, ?_⟩
  · rw [trimEnd, ← List.reverse_append, List.takeWhile_append_dropWhile, List.reverse_reverse]
  · intro c member
    exact List.mem_takeWhile_imp (List.mem_reverse.1 member)

theorem trimEnd_append_drop (s : Text) : trimEnd s ++ s.drop (trimEnd s).length = s := by
  obtain ⟨blanks, split, -⟩ := trimEnd_append_blanks s
  have cut : (trimEnd s ++ blanks).drop (trimEnd s).length = blanks := List.drop_left
  rw [← split] at cut
  rw [cut]
  exact split.symm

theorem blanks_append_trimStart (s : Text) :
    ∃ blanks : Text, s = blanks ++ trimStart s ∧ AllBlank blanks :=
  ⟨s.takeWhile isBlank, List.takeWhile_append_dropWhile.symm,
    fun _ member => List.mem_takeWhile_imp member⟩

theorem blanks_append_trim (s : Text) :
    ∃ front back : Text, s = front ++ (trim s ++ back) ∧
      AllBlank front ∧ AllBlank back := by
  obtain ⟨front, splitFront, frontBlank⟩ := blanks_append_trimStart s
  obtain ⟨back, splitBack, backBlank⟩ := trimEnd_append_blanks (trimStart s)
  exact ⟨front, back, splitFront.trans (congrArg (front ++ ·) splitBack), frontBlank, backBlank⟩

theorem mem_of_mem_trim {s : Text} {c : Char} (member : c ∈ trim s) : c ∈ s := by
  obtain ⟨front, back, split, -, -⟩ := blanks_append_trim s
  rw [split]
  exact List.mem_append_right _ (List.mem_append_left _ member)

theorem trim_blanks_append {blanks : Text} (allBlank : AllBlank blanks) (s : Text) :
    trim (blanks ++ s) = trim s := by
  rw [trim, trim, trimStart, trimStart, List.dropWhile_append_of_pos allBlank]

theorem trimEnd_append_of_allBlank {blanks : Text} (allBlank : AllBlank blanks) (s : Text) :
    trimEnd (s ++ blanks) = trimEnd s := by
  have reversed : AllBlank blanks.reverse :=
    fun c member => allBlank c (List.mem_reverse.1 member)
  rw [trimEnd, trimEnd, List.reverse_append, List.dropWhile_append_of_pos reversed]

theorem trim_append_blanks {blanks : Text} (allBlank : AllBlank blanks) (s : Text) :
    trim (s ++ blanks) = trim s := by
  rw [trim, trim, trimStart, trimStart, List.dropWhile_append]
  split
  case isTrue empty =>
    have all : blanks.dropWhile isBlank = [] := List.dropWhile_eq_nil_iff.2 allBlank
    rw [all, List.isEmpty_iff.1 empty]
  case isFalse => exact trimEnd_append_of_allBlank allBlank _

theorem trim_of_allBlank {s : Text} (allBlank : AllBlank s) : trim s = [] := by
  have nothing := trim_blanks_append allBlank []
  rwa [List.append_nil] at nothing

theorem allBlank_of_trim_eq_nil {s : Text} (empty : trim s = []) : AllBlank s := by
  obtain ⟨front, back, split, frontBlank, backBlank⟩ := blanks_append_trim s
  rw [split, empty]
  exact frontBlank.append backBlank

theorem trim_trim (s : Text) : trim (trim s) = trim s := by
  obtain ⟨front, back, split, frontBlank, backBlank⟩ := blanks_append_trim s
  have again := congrArg trim split
  rwa [trim_blanks_append frontBlank, trim_append_blanks backBlank, eq_comm] at again

theorem trimEnd_trimEnd (s : Text) : trimEnd (trimEnd s) = trimEnd s := by
  rw [trimEnd, trimEnd, List.reverse_reverse, List.dropWhile_idempotent]

theorem trimEnd_append_of_visible {s t : Text} (visible : isBlankText t = false) :
    trimEnd (s ++ t) = s ++ trimEnd t := by
  have nonempty : (t.reverse.dropWhile isBlank).isEmpty = false := by
    rw [List.isEmpty_eq_false_iff]
    intro empty
    have allBlank : isBlankText t = true :=
      List.all_eq_true.2 fun c member =>
        List.dropWhile_eq_nil_iff.1 empty c (List.mem_reverse.2 member)
    rw [allBlank] at visible
    cases visible
  rw [trimEnd, trimEnd, List.reverse_append, List.dropWhile_append, nonempty]
  simp

theorem trimEnd_concat_of_visible {c : Char} (s : Text) (visible : isBlank c = false) :
    trimEnd (s ++ [c]) = s ++ [c] := by
  have single : isBlankText [c] = false := by simpa [isBlankText] using visible
  rw [trimEnd_append_of_visible single, trimEnd]
  simp [visible]

/-- Blanks are cut off up to the last visible character. -/
theorem trimEnd_concat_append {c : Char} (s t : Text) (visible : isBlank c = false) :
    trimEnd (s ++ [c] ++ t) = s ++ [c] ++ trimEnd t := by
  cases blank : isBlankText t with
  | true =>
      have allBlank := allBlank_iff.2 blank
      have nothing := trimEnd_append_of_allBlank allBlank []
      rw [List.nil_append] at nothing
      rw [trimEnd_append_of_allBlank allBlank, trimEnd_concat_of_visible s visible, nothing]
      exact (List.append_nil _).symm
  | false => exact trimEnd_append_of_visible blank

theorem getLast?_trimEnd_ne {c : Char} (blank : isBlank c = true) (s : Text) :
    (trimEnd s).getLast? ≠ some c := by
  rw [trimEnd, List.getLast?_reverse]
  intro first
  have visible := List.head?_dropWhile_not isBlank s.reverse
  rw [first] at visible
  simp [blank] at visible

theorem trim_of_visible {s : Text} {c d : Char} (first : s.head? = some c)
    (last : s.getLast? = some d) (firstVisible : isBlank c = false)
    (lastVisible : isBlank d = false) : trim s = s := by
  have start : trimStart s = s := by
    cases s with
    | nil => rfl
    | cons e rest =>
        obtain rfl := Option.some.inj first
        rw [trimStart, List.dropWhile_cons, if_neg (by rw [firstVisible]; decide)]
  obtain ⟨front, rfl⟩ := List.getLast?_eq_some_iff.1 last
  rw [trim, start, trimEnd_concat_of_visible front lastVisible]

theorem isBlankText_trimEnd (s : Text) : isBlankText (trimEnd s) = isBlankText s := by
  obtain ⟨blanks, split, allBlank⟩ := trimEnd_append_blanks s
  generalize trimEnd s = short at split
  subst split
  have tail : blanks.all isBlank = true := List.all_eq_true.2 allBlank
  rw [isBlankText, isBlankText, List.all_append, tail, Bool.and_true]

end Text

namespace Code

theorem braceKind?_of_isBlank {c : Char} (blank : Text.isBlank c = true) :
    braceKind? c = none := by
  have notOpening : c ≠ '{' := by rintro rfl; exact absurd blank (by decide)
  have notClosing : c ≠ '}' := by rintro rfl; exact absurd blank (by decide)
  rw [braceKind?, if_neg notOpening, if_neg notClosing]

namespace Mode

theorem ofCode_of_isBlank {c : Char} (blank : Text.isBlank c = true) : ofCode c = .code := by
  have notSlash : c ≠ '/' := by rintro rfl; exact absurd blank (by decide)
  have notSign : c ≠ '@' := by rintro rfl; exact absurd blank (by decide)
  have notQuote : c ≠ '"' := by rintro rfl; exact absurd blank (by decide)
  have notApostrophe : c ≠ '\'' := by rintro rfl; exact absurd blank (by decide)
  rw [ofCode, if_neg notSlash, if_neg notSign, if_neg notQuote, if_neg notApostrophe]

/-- The mode after a blank: what the character before it announced is off. -/
def calm : Mode → Mode
  | .code | .afterSlash | .afterAt | .afterAtDollar | .afterQuote => .code
  | .character | .characterEscape => .character
  | .string | .stringEscape => .string
  | .verbatim => .verbatim
  | .lineComment => .lineComment
  | .blockComment | .afterStar => .blockComment

theorem step_of_isBlank (mode : Mode) {c : Char} (blank : Text.isBlank c = true) :
    mode.step c = mode.calm := by
  have notSlash : c ≠ '/' := by rintro rfl; exact absurd blank (by decide)
  have notStar : c ≠ '*' := by rintro rfl; exact absurd blank (by decide)
  have notQuote : c ≠ '"' := by rintro rfl; exact absurd blank (by decide)
  have notApostrophe : c ≠ '\'' := by rintro rfl; exact absurd blank (by decide)
  have notBackslash : c ≠ '\\' := by rintro rfl; exact absurd blank (by decide)
  have notDollar : c ≠ '$' := by rintro rfl; exact absurd blank (by decide)
  cases mode <;> simp [step, calm, ofCode_of_isBlank blank, *]

@[simp] theorem carry_calm (mode : Mode) : mode.calm.carry = mode.carry := by
  cases mode <;> rfl

@[simp] theorem isCode_calm (mode : Mode) : mode.calm.isCode = mode.isCode := by
  cases mode <;> rfl

@[simp] theorem calm_mode (carry : Carry) : carry.mode.calm = carry.mode := by
  cases carry <;> rfl

@[simp] theorem calm_calm (mode : Mode) : mode.calm.calm = mode.calm := by
  cases mode <;> rfl

variable {blanks : Text} (allBlank : Text.AllBlank blanks)
include allBlank

theorem run_blanks (mode : Mode) :
    mode.run blanks = mode ∨ mode.run blanks = mode.calm := by
  induction blanks generalizing mode with
  | nil => exact Or.inl rfl
  | cons c rest ih =>
      have blank := allBlank c List.mem_cons_self
      have later := ih (fun d member => allBlank d (List.mem_cons_of_mem c member)) mode.calm
      rw [calm_calm, or_self] at later
      right
      rw [run_cons, step_of_isBlank mode blank, later]

theorem kinds_blanks (mode : Mode) : mode.kinds blanks = [] := by
  induction blanks generalizing mode with
  | nil => rfl
  | cons c rest ih =>
      have blank := allBlank c List.mem_cons_self
      have plain : mode.braceAt? c = none := by
        rw [braceAt?, braceKind?_of_isBlank blank, ite_self]
      rw [kinds, plain, ih fun d member => allBlank d (List.mem_cons_of_mem c member)]
      rfl

theorem carry_run_blanks (mode : Mode) : (mode.run blanks).carry = mode.carry := by
  rcases run_blanks allBlank mode with same | calmed
  · rw [same]
  · rw [calmed, carry_calm]

theorem isCode_run_blanks (mode : Mode) : (mode.run blanks).isCode = mode.isCode := by
  rcases run_blanks allBlank mode with same | calmed
  · rw [same]
  · rw [calmed, isCode_calm]

theorem run_mode_blanks (carry : Carry) : carry.mode.run blanks = carry.mode := by
  rcases run_blanks allBlank carry.mode with same | calmed
  · exact same
  · rw [calmed, calm_mode]

end Mode

end Code

end MigrationSquash
