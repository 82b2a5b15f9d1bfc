import MigrationSquash.Code.Arguments
import MigrationSquash.Proofs.Region.Signature

/-!
# Arguments with names

What is taken for an argument with a name: a name, perhaps behind an `@`, and after blanks a colon
that something other than a second colon follows.
-/

set_option autoImplicit false

namespace MigrationSquash

open Text (AllBlank isBlank isWord isWordStart trim trimStart)

/-- What may stand as the name of a parameter. -/
structure IsParameter (name : Text) : Prop where
  starts : name.head?.any isWordStart = true
  word : ∀ c ∈ name, isWord c = true

variable {name s : Text}

theorem IsParameter.exists_cons (parameter : IsParameter name) :
    ∃ first others, name = first :: others ∧ isWordStart first = true ∧ isBlank first = false := by
  obtain ⟨starts, word⟩ := parameter
  cases name with
  | nil => exact absurd starts (by decide)
  | cons first others =>
      refine ⟨first, others, rfl, by simpa using starts, ?_⟩
      cases blank : isBlank first with
      | false => rfl
      | true =>
          have noWord := Text.isWord_of_isBlank blank
          rw [word first List.mem_cons_self] at noWord
          cases noWord

namespace Code

/-- A name with a single colon behind it. -/
def IsNamed (s : Text) : Prop :=
  ∃ sign name gap c rest, (sign = [] ∨ sign = ['@']) ∧ IsParameter name ∧ AllBlank gap ∧ c ≠ ':' ∧
    s = sign ++ (name ++ (gap ++ ':' :: c :: rest))

/-- The name ends where its colon or a blank before it stands. -/
theorem span_name (parameter : IsParameter name) {gap : Text} (blank : AllBlank gap) (rest : Text) :
    (name ++ (gap ++ ':' :: rest)).takeWhile isWord = name ∧
      (name ++ (gap ++ ':' :: rest)).dropWhile isWord = gap ++ ':' :: rest := by
  have stop : ∃ d more, gap ++ ':' :: rest = d :: more ∧ isWord d = false := by
    cases gap with
    | nil => exact ⟨':', rest, rfl, by decide⟩
    | cons d more => exact ⟨d, _, rfl, Text.isWord_of_isBlank (blank d List.mem_cons_self)⟩
  obtain ⟨d, more, split, noWord⟩ := stop
  rw [split, List.takeWhile_append_of_pos parameter.word,
    List.dropWhile_append_of_pos parameter.word, List.takeWhile_cons_of_neg (by simp [noWord]),
    List.dropWhile_cons_of_neg (by simp [noWord]), List.append_nil]
  exact ⟨rfl, rfl⟩

theorem namedArgument?_named {sign : Text} (isSign : sign = [] ∨ sign = ['@'])
    (parameter : IsParameter name) {gap : Text} (blank : AllBlank gap) {c : Char}
    (noColon : c ≠ ':') (rest : Text) :
    namedArgument? (sign ++ (name ++ (gap ++ ':' :: c :: rest))) =
      some ⟨some name, trim (c :: rest)⟩ := by
  obtain ⟨taken, dropped⟩ := span_name parameter blank (c :: rest)
  have colon : trimStart (gap ++ ':' :: c :: rest) = ':' :: c :: rest := by
    rw [trimStart, List.dropWhile_append_of_pos blank]
    rfl
  generalize gap ++ ':' :: c :: rest = back at taken dropped colon
  obtain ⟨first, others, rfl, starts, -⟩ := parameter.exists_cons
  have bare : (Text.after? ['@'] (sign ++ (first :: others ++ back))).getD
      (sign ++ (first :: others ++ back)) = first :: others ++ back := by
    rcases isSign with rfl | rfl
    · have noSign : '@' ≠ first := by
        rintro rfl
        exact absurd starts (by decide)
      simp [Text.after?, noSign]
    · rfl
  simp only [namedArgument?, bare, taken, dropped, colon, starts, noColon, ne_eq, not_false_eq_true,
    decide_true, Bool.and_self, if_true]

theorem isNamed_of_namedArgument? {argument : Argument} (found : namedArgument? s = some argument) :
    IsNamed s := by
  obtain ⟨sign, isSign, split⟩ : ∃ sign, (sign = [] ∨ sign = ['@']) ∧
      s = sign ++ (Text.after? ['@'] s).getD s := by
    cases signed : Text.after? ['@'] s with
    | none => exact ⟨[], Or.inl rfl, rfl⟩
    | some rest => exact ⟨['@'], Or.inr rfl, Text.after?_eq_some_iff.1 signed⟩
  unfold namedArgument? at found
  generalize (Text.after? ['@'] s).getD s = bare at found split
  obtain ⟨gap, behind, blank⟩ := Text.blanks_append_trimStart (bare.dropWhile isWord)
  have whole : bare = bare.takeWhile isWord ++ bare.dropWhile isWord :=
    List.takeWhile_append_dropWhile.symm
  have word : ∀ c ∈ bare.takeWhile isWord, isWord c = true := fun c member =>
    List.mem_takeWhile_imp member
  dsimp only at found
  split at found
  · rename_i first others c rest isName isRest
    split at found
    · rename_i fits
      rw [Bool.and_eq_true, decide_eq_true_eq] at fits
      refine ⟨sign, bare.takeWhile isWord, gap, c, rest, isSign, ⟨?_, word⟩, blank, fits.2, ?_⟩
      · rw [isName]
        exact fits.1
      · rw [← isRest, ← behind, ← whole]
        exact split
    · cases found
  · cases found

theorem isNamed_iff : IsNamed s ↔ (namedArgument? s).isSome = true := by
  constructor
  · rintro ⟨sign, name, gap, c, rest, isSign, parameter, blank, noColon, rfl⟩
    rw [namedArgument?_named isSign parameter blank noColon]
    rfl
  · intro found
    obtain ⟨argument, named⟩ := Option.isSome_iff_exists.1 found
    exact isNamed_of_namedArgument? named

instance (s : Text) : Decidable (IsNamed s) := decidable_of_iff _ isNamed_iff.symm

/-- The argument of a segment with blanks around what is written. -/
theorem argument?_blanks {front back : Text} (frontBlank : AllBlank front)
    (backBlank : AllBlank back) (trimmed : trim s = s) (shown : s ≠ []) :
    argument? (front ++ (s ++ back)) = some ((namedArgument? s).getD ⟨none, s⟩) := by
  have visible : s.isEmpty = false := by simpa using shown
  rw [argument?, Text.trim_blanks_append frontBlank, Text.trim_append_blanks backBlank, trimmed]
  simp only [visible, Bool.false_eq_true, if_false]

end Code

end MigrationSquash
