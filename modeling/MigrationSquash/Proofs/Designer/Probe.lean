import MigrationSquash.Proofs.Designer.Found

/-!
# Identities that tell where they stand

An identity whose name is a run of letters that is longer than a text.  Main statement: two divisions
of the text into which it has been put with the same result are one.
-/

set_option autoImplicit false

namespace MigrationSquash.Designer

open Code (Alphabet)
open Code.Directive (Name)
open Text (isAsciiWord isBlank)

section Lists

variable {c : Char} {front back other rest : Text}

/-- Texts before the first long run of a character. -/
theorem append_replicate_inj {k : Nat} (short : front.length < k) (otherShort : other.length < k)
    (ends : front.getLast? ≠ some c) (otherEnds : other.getLast? ≠ some c)
    (same : front ++ (List.replicate k c ++ back) = other ++ (List.replicate k c ++ rest)) :
    front = other ∧ back = rest := by
  have inRun {more tail tail' : Text} (bound : more.length ≤ k)
      (split : List.replicate k c ++ tail = more ++ tail') : ∀ d ∈ more, d = c := by
    have start : more <+: List.replicate k c :=
      List.prefix_of_prefix_length_le ⟨tail', split.symm⟩ (List.prefix_append _ tail)
        (by rwa [List.length_replicate])
    exact fun d member => List.eq_of_mem_replicate (start.subset member)
  have stops {start more : Text} (all : ∀ d ∈ more, d = c)
      (ends : (start ++ more).getLast? ≠ some c) : more = [] := by
    by_contra nonempty
    obtain ⟨init, last, rfl⟩ := (List.eq_nil_or_concat' more).resolve_left nonempty
    rw [← List.append_assoc, List.getLast?_concat] at ends
    exact ends (congrArg some (all last (by simp)))
  -- What one text has more than the other lies in the run of the other.
  rcases List.append_eq_append_iff.1 same with ⟨more, rfl, split⟩ | ⟨more, rfl, split⟩
  · rw [List.length_append] at otherShort
    obtain rfl := stops (inRun (by omega) split) otherEnds
    rw [List.append_nil]
    exact ⟨rfl, List.append_cancel_left split⟩
  · rw [List.length_append] at short
    obtain rfl := stops (inRun (by omega) split) ends
    rw [List.append_nil]
    exact ⟨rfl, (List.append_cancel_left split).symm⟩

/-- Texts before the last place of a character. -/
theorem append_cons_inj (absent : c ∉ back) (otherAbsent : c ∉ rest)
    (same : front ++ c :: back = other ++ c :: rest) : front = other ∧ back = rest := by
  rcases List.append_eq_append_iff.1 same with ⟨more, rfl, split⟩ | ⟨more, rfl, split⟩
  · cases more with
    | nil => exact ⟨(List.append_nil _).symm, (List.cons.inj split).2⟩
    | cons d more => exact absurd (by rw [(List.cons.inj split).2]; simp) absent
  · cases more with
    | nil => exact ⟨List.append_nil _, (List.cons.inj split).2.symm⟩
    | cons d more => exact absurd (by rw [(List.cons.inj split).2]; simp) otherAbsent

/-- A text without a character stands before or behind a place of it. -/
theorem before_or_behind {piece : Text} (absent : c ∉ piece)
    (same : front ++ (piece ++ back) = other ++ c :: rest) :
    (∃ more, other = front ++ (piece ++ more) ∧ back = more ++ c :: rest) ∨
      ∃ more, front = other ++ c :: more ∧ rest = more ++ (piece ++ back) := by
  rcases List.append_eq_append_iff.1 same with ⟨more, rfl, split⟩ | ⟨more, rfl, split⟩
  · rcases List.append_eq_append_iff.1 split with ⟨behind, rfl, whole⟩ | ⟨behind, whole, others⟩
    · exact .inl ⟨behind, rfl, whole⟩
    · cases behind with
      | nil => exact .inl ⟨[], by rw [whole, List.append_nil, List.append_nil], others.symm⟩
      | cons d behind =>
          obtain rfl := (List.cons.inj others).1
          exact absurd (by rw [whole]; simp) absent
  · cases more with
    | cons d more =>
        obtain ⟨rfl, whole⟩ := List.cons.inj split
        exact .inr ⟨more, rfl, whole⟩
    | nil =>
        cases piece with
        | nil => exact .inl ⟨[], by simp, split.symm⟩
        | cons d piece =>
            obtain rfl := (List.cons.inj split).1
            exact absurd List.mem_cons_self absent

/-- A text that goes on with itself but for what stands before and behind it. -/
theorem eq_nil_of_shifted {shift : Text} (ends : front.getLast? = some c) (absent : c ∉ back)
    (same : front ++ back = shift ++ (front ++ rest)) : shift = [] := by
  rw [← List.append_assoc] at same
  rcases List.append_eq_append_iff.1 same with ⟨more, split, rfl⟩ | ⟨more, split, -⟩
  · have lengths := congrArg List.length split
    rw [List.length_append, List.length_append] at lengths
    rcases List.eq_nil_or_concat' more with rfl | ⟨init, last, rfl⟩
    · rw [List.length_nil] at lengths
      exact List.length_eq_zero_iff.1 (by omega)
    · have lasts := congrArg List.getLast? split
      rw [List.getLast?_append, ends, ← List.append_assoc, List.getLast?_concat] at lasts
      obtain rfl := Option.some.inj lasts
      exact absurd (by simp) absent
  · have lengths := congrArg List.length split
    rw [List.length_append, List.length_append] at lengths
    exact List.length_eq_zero_iff.1 (by omega)

end Lists

/-- A migration whose name is one, and whose timestamp names a second. -/
structure IsPrimary (alphabet : Alphabet) (id : MigrationId) : Prop where
  timestamp : Calendar.isTimestamp id.timestamp = true
  name : ∃ name : Name alphabet, name.text = id.name

theorem IsPrimary.visible {alphabet : Alphabet} {id : MigrationId} (primary : IsPrimary alphabet id) :
    ∀ c ∈ id.toText, isBlank c = false := by
  obtain ⟨timestamp, name, same⟩ := primary
  intro c member
  rcases List.mem_append.1 member with digit | behind
  · simp only [Calendar.isTimestamp, Bool.and_eq_true] at timestamp
    obtain ⟨⟨⟨⟨⟨⟨-, digits⟩, -⟩, -⟩, -⟩, -⟩, -⟩ := timestamp
    have isDigit : c.isDigit = true := List.all_eq_true.1 digits c digit
    refine Text.isBlank_eq_false_of_isWord (Text.isWord_of_isAsciiWord ?_)
    rw [isAsciiWord, Char.isAlphanum, isDigit, Bool.or_true, Bool.true_or]
  · rcases List.mem_cons.1 behind with rfl | inName
    · decide
    · rw [← same] at inName
      exact name.isBlank_of_mem_text inName

def probeStem : Text := "20240101000000_".toList

/-- A migration whose name is a run of one letter. -/
def probe (length : Nat) : MigrationId :=
  ⟨"20240101000000".toList, List.replicate length 'x'⟩

theorem name_probe (length : Nat) : (probe length).name = List.replicate length 'x' := rfl

theorem toText_probe (length : Nat) :
    (probe length).toText = probeStem ++ (probe length).name := rfl

theorem isPrimary_probe (alphabet : Alphabet) {length : Nat} (positive : 0 < length) :
    IsPrimary alphabet (probe length) := by
  obtain ⟨length, rfl⟩ := Nat.exists_eq_succ_of_ne_zero positive.ne'
  have starts : alphabet.starts 'x' = true := (alphabet.starts_ascii 'x' (by decide)).trans (by decide)
  have second : Calendar.isTimestamp "20240101000000".toList = true := by decide
  refine ⟨second, ⟨false, 'x', List.replicate length 'x', starts, fun c member => ?_⟩, rfl⟩
  rw [List.eq_of_mem_replicate member]
  exact alphabet.inside_of_starts 'x' starts

section Probe

variable {k : Nat} {front other middle otherMiddle back otherBack argument otherArgument name
  otherName : Text}

theorem getLast?_append_probeStem (front : Text) : (front ++ probeStem).getLast? = some '_' := by
  rw [List.getLast?_append]
  rfl

theorem EndsBlank.not_probe {s : Text} (ends : EndsBlank s) : s.getLast? ≠ some 'x' := by
  obtain ⟨c, last, blank⟩ := ends
  rw [last]
  rintro ⟨⟩
  exact absurd blank (by decide)

theorem short_of_append {n : Nat} (short : (front ++ back).length + n < k) :
    front.length + n < k := by
  rw [List.length_append] at short
  omega

/-- The first place of the name tells what stands before it. -/
theorem append_name_inj (short : front.length < k) (otherShort : other.length < k)
    (ends : EndsBlank front) (otherEnds : EndsBlank other)
    (same : front ++ ((probe k).name ++ back) = other ++ ((probe k).name ++ otherBack)) :
    front = other ∧ back = otherBack :=
  append_replicate_inj short otherShort ends.not_probe otherEnds.not_probe same

/-- So does the first place of the identity. -/
theorem append_toText_inj (short : front.length + probeStem.length < k)
    (otherShort : other.length + probeStem.length < k)
    (same : front ++ ((probe k).toText ++ back) = other ++ ((probe k).toText ++ otherBack)) :
    front = other ∧ back = otherBack := by
  have ends (s : Text) : (s ++ probeStem).getLast? ≠ some 'x' := by
    rw [getLast?_append_probeStem]
    decide
  have first : front ++ probeStem = other ++ probeStem ∧ back = otherBack :=
    append_replicate_inj (by rwa [List.length_append]) (by rwa [List.length_append])
      (ends front) (ends other)
      (by simpa only [toText_probe, name_probe, List.append_assoc] using same)
  exact ⟨List.append_cancel_right first.1, first.2⟩

/-- The first run is not both in a name and in an identity. -/
theorem name_ne_toText (short : front.length < k) (otherShort : other.length + probeStem.length < k)
    (ends : EndsBlank front) :
    front ++ ((probe k).name ++ back) ≠ other ++ ((probe k).toText ++ otherBack) := by
  intro same
  have otherEnds := getLast?_append_probeStem other
  have first : front = other ++ probeStem ∧ _ :=
    append_replicate_inj short (by rwa [List.length_append]) ends.not_probe
      (by rw [otherEnds]; decide)
      (by simpa only [toText_probe, name_probe, List.append_assoc] using same)
  obtain ⟨c, last, blank⟩ := ends
  rw [first.1, otherEnds] at last
  obtain rfl := Option.some.inj last
  exact absurd blank (by decide)

/-- Where the argument stands before the name, what is put in tells both. -/
theorem eq_of_argument_first
    (short : (front ++ (argument ++ (middle ++ (name ++ back)))).length + probeStem.length < k)
    (source : front ++ (argument ++ (middle ++ (name ++ back))) =
      other ++ (otherArgument ++ (otherMiddle ++ (otherName ++ otherBack))))
    (placed : front ++ ((probe k).toText ++ (middle ++ ((probe k).name ++ back))) =
      other ++ ((probe k).toText ++ (otherMiddle ++ ((probe k).name ++ otherBack))))
    (noQuote : '"' ∉ argument) (quote : middle.head? = some '"')
    (ends : EndsBlank middle) (otherEnds : EndsBlank otherMiddle)
    (visible : ∀ c ∈ name, isBlank c = false) :
    front = other ∧ argument = otherArgument ∧ middle = otherMiddle ∧ name = otherName := by
  have lengths := congrArg List.length source
  simp only [List.length_append] at lengths short
  obtain ⟨rfl, behind⟩ := append_toText_inj (by omega) (by omega) placed
  obtain ⟨rfl, rfl⟩ := append_name_inj (by omega) (by omega) ends otherEnds behind
  have same : argument ++ (middle ++ name) = otherArgument ++ (middle ++ otherName) := by
    refine List.append_cancel_right (?_ : _ ++ back = _ ++ back)
    simpa only [List.append_assoc] using List.append_cancel_left source
  have starts : argument <+: otherArgument := by
    cases middle with
    | nil => cases quote
    | cons c more =>
        obtain rfl := Option.some.inj quote
        exact prefix_of_not_mem noQuote ⟨_, same⟩
  obtain ⟨shift, rfl⟩ := starts
  rw [List.append_assoc] at same
  have shifted := List.append_cancel_left same
  obtain ⟨c, last, blank⟩ := ends
  obtain rfl := eq_nil_of_shifted last
    (fun member => Bool.noConfusion (blank.symm.trans (visible c member))) shifted
  exact ⟨rfl, (List.append_nil _).symm, rfl, List.append_cancel_left shifted⟩

/-- So it does where the name stands first, if the other name is a whole one. -/
theorem eq_of_name_first
    (short : (front ++ (name ++ (middle ++ (argument ++ back)))).length + probeStem.length < k)
    (source : front ++ (name ++ (middle ++ (argument ++ back))) =
      other ++ (otherName ++ (otherMiddle ++ (otherArgument ++ otherBack))))
    (placed : front ++ ((probe k).name ++ (middle ++ ((probe k).toText ++ back))) =
      other ++ ((probe k).name ++ (otherMiddle ++ ((probe k).toText ++ otherBack))))
    (noQuote : '"' ∉ argument) (quote : middle.getLast? = some '"')
    (ends : EndsBlank front) (otherEnds : EndsBlank other)
    (longest : ∀ c more, name = otherName ++ c :: more → otherMiddle.head? ≠ some c) :
    front = other ∧ name = otherName ∧ middle = otherMiddle ∧ argument = otherArgument := by
  have lengths := congrArg List.length source
  simp only [List.length_append] at lengths short
  obtain ⟨rfl, behind⟩ := append_name_inj (by omega) (by omega) ends otherEnds placed
  obtain ⟨rfl, rfl⟩ := append_toText_inj (by omega) (by omega) behind
  have same : name ++ (middle ++ argument) = otherName ++ (middle ++ otherArgument) := by
    refine List.append_cancel_right (?_ : _ ++ back = _ ++ back)
    simpa only [List.append_assoc] using List.append_cancel_left source
  -- The other name is not longer, as no quote is in the argument, nor shorter, as it is a whole one.
  have names : name = otherName := by
    rcases List.append_eq_append_iff.1 same with ⟨shift, rfl, split⟩ | ⟨shift, split, rest⟩
    · rw [eq_nil_of_shifted quote noQuote split, List.append_nil]
    · cases shift with
      | nil => rw [split, List.append_nil]
      | cons c more =>
          cases middle with
          | nil => cases quote
          | cons d behind =>
              obtain rfl := (List.cons.inj rest).1
              exact absurd rfl (longest _ more split)
  obtain rfl := names
  exact ⟨rfl, rfl, rfl, List.append_cancel_left (List.append_cancel_left same)⟩

end Probe

end MigrationSquash.Designer
