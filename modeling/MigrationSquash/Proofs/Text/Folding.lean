import MigrationSquash.Proofs.Region.Signature
import MigrationSquash.Text.CaseFold

/-!
# Characters that differ in case

Only word characters differ from their folding, and they fold to word characters.  Main
statements: two characters with one folding are both word characters or both not, and they are
the same character if they are not.
-/

set_option autoImplicit false

namespace MigrationSquash.Text

/-- The ranges of word characters that hold letters. -/
def letterRanges : List (Nat × Nat) := (0x41, 0x5A) :: (0x61, 0x7A) :: wordRanges

/-- Whether one range of letters holds the code points from `first` to `last`. -/
def coversLetters (first last : Nat) : Bool :=
  letterRanges.any fun range => Nat.ble last range.2 && Nat.ble range.1 first

/-- The distances from its first character at which a range folds. -/
def FoldRange.offsets (range : FoldRange) : List Nat :=
  (List.range (range.last - range.first + 1)).filter fun offset => offset % range.step == 0

/-- Whether a range folds letters to letters. -/
def FoldRange.foldsLetters (range : FoldRange) : Bool :=
  (coversLetters range.first range.last &&
      coversLetters range.folded (range.folded + (range.last - range.first))) ||
    range.offsets.all fun offset =>
      coversLetters (range.first + offset) (range.first + offset) &&
        coversLetters (range.folded + offset) (range.folded + offset)

theorem foldsLetters_foldRanges : foldRanges.all FoldRange.foldsLetters = true := by
  decide +kernel

theorem coversLetters_of_le {first last n : Nat} (covers : coversLetters first last = true)
    (lower : first ≤ n) (upper : n ≤ last) : coversLetters n n = true := by
  simp only [coversLetters, List.any_eq_true, Bool.and_eq_true, Nat.ble_eq] at covers ⊢
  obtain ⟨range, member, above, below⟩ := covers
  exact ⟨range, member, Nat.le_trans upper above, Nat.le_trans below lower⟩

theorem isWord_of_coversLetters {c : Char}
    (covers : coversLetters c.val.toNat c.val.toNat = true) : isWord c = true := by
  simp only [coversLetters, List.any_eq_true, Bool.and_eq_true, Nat.ble_eq] at covers
  obtain ⟨range, member, upper, lower⟩ := covers
  rw [letterRanges, List.mem_cons, List.mem_cons] at member
  have beyond : ∀ range ∈ wordRanges, 0x80 ≤ range.1 := by decide +kernel
  rw [isWord]
  split
  · rename_i small
    have upperOrLower : (0x41 ≤ c.val.toNat ∧ c.val.toNat ≤ 0x5A) ∨
        (0x61 ≤ c.val.toNat ∧ c.val.toNat ≤ 0x7A) := by
      rcases member with rfl | rfl | member
      · exact Or.inl ⟨lower, upper⟩
      · exact Or.inr ⟨lower, upper⟩
      · have := beyond range member
        omega
    delta isAsciiWord Char.isAlphanum Char.isAlpha Char.isUpper Char.isLower
    simp only [Bool.or_eq_true, Bool.and_eq_true, decide_eq_true_eq, ge_iff_le,
      UInt32.le_iff_toNat_le]
    exact Or.inl (Or.inl upperOrLower)
  · rename_i large
    rcases member with rfl | rfl | member
    · exact absurd (Nat.lt_of_le_of_lt upper (by decide)) large
    · exact absurd (Nat.lt_of_le_of_lt upper (by decide)) large
    · rw [List.any_eq_true]
      refine ⟨range, member, ?_⟩
      simp only [Bool.and_eq_true, decide_eq_true_eq]
      exact ⟨lower, upper⟩

theorem FoldRange.fold?_eq_some {range : FoldRange} (letters : range.foldsLetters = true)
    {n folded : Nat} (found : range.fold? n = some folded) :
    coversLetters n n = true ∧ coversLetters folded folded = true := by
  unfold FoldRange.fold? at found
  split at found
  · rename_i inside
    simp only [Bool.and_eq_true, decide_eq_true_eq] at inside
    obtain rfl := Option.some.inj found
    simp only [FoldRange.foldsLetters, Bool.or_eq_true, Bool.and_eq_true, List.all_eq_true] at letters
    rcases letters with ⟨firsts, images⟩ | each
    · exact ⟨coversLetters_of_le firsts inside.1.1 inside.1.2,
        coversLetters_of_le images (by omega) (by omega)⟩
    · have same : range.first + (n - range.first) = n := by omega
      have pair := each (n - range.first) (by
        rw [FoldRange.offsets, List.mem_filter, List.mem_range]
        exact ⟨by omega, inside.2⟩)
      rwa [same] at pair
  · cases found

theorem foldIn_eq_or {ranges : List FoldRange} (letters : ranges.all FoldRange.foldsLetters = true)
    (n : Nat) :
    foldIn n ranges = n ∨
      coversLetters n n = true ∧ coversLetters (foldIn n ranges) (foldIn n ranges) = true := by
  induction ranges with
  | nil => exact Or.inl rfl
  | cons range rest ih =>
      rw [List.all_cons, Bool.and_eq_true] at letters
      rw [foldIn]
      split
      · exact Or.inl rfl
      · cases found : range.fold? n with
        | none => exact ih letters.2
        | some folded => exact Or.inr (FoldRange.fold?_eq_some letters.1 found)

theorem eq_of_foldCase_eq {c d : Char} (noWord : isWord d = false)
    (same : foldCase c = foldCase d) : c = d := by
  unfold foldCase at same
  rcases foldIn_eq_or foldsLetters_foldRanges d.val.toNat with foldedD | ⟨letter, -⟩
  · rw [foldedD] at same
    rcases foldIn_eq_or foldsLetters_foldRanges c.val.toNat with foldedC | ⟨-, letter⟩
    · rw [foldedC] at same
      exact Char.toNat_inj.1 same
    · rw [same] at letter
      rw [isWord_of_coversLetters letter] at noWord
      cases noWord
  · rw [isWord_of_coversLetters letter] at noWord
    cases noWord

theorem isWord_eq_of_foldCase_eq {c d : Char} (same : foldCase c = foldCase d) :
    isWord c = isWord d := by
  cases wordD : isWord d with
  | false => rw [eq_of_foldCase_eq wordD same, wordD]
  | true =>
      cases wordC : isWord c with
      | false => rw [← wordC, ← wordD, eq_of_foldCase_eq wordC same.symm]
      | true => rfl

theorem isBlank_eq_of_foldCase_eq {c d : Char} (same : foldCase c = foldCase d) :
    isBlank c = isBlank d := by
  cases blankD : isBlank d with
  | true => rw [eq_of_foldCase_eq (isWord_of_isBlank blankD) same, blankD]
  | false =>
      cases blankC : isBlank c with
      | true => rw [← blankC, ← blankD, eq_of_foldCase_eq (isWord_of_isBlank blankC) same.symm]
      | false => rfl

theorem isBlank_eq_false_of_isWord {c : Char} (word : isWord c = true) : isBlank c = false := by
  cases blank : isBlank c with
  | false => rfl
  | true =>
      rw [isWord_of_isBlank blank] at word
      cases word

/-- A text that differs from another one at most in case. -/
def SameFolded (s t : Text) : Prop := s.map foldCase = t.map foldCase

instance (s t : Text) : Decidable (SameFolded s t) := inferInstanceAs (Decidable (_ = _))

theorem SameFolded.length_eq {s t : Text} (same : SameFolded s t) : s.length = t.length := by
  simpa using congrArg List.length same

theorem sameFolded_cons_iff {p : Char} {s t : Text} :
    SameFolded s (p :: t) ↔ ∃ c rest, s = c :: rest ∧ foldCase c = foldCase p ∧ SameFolded rest t := by
  constructor
  · intro same
    cases s with
    | nil => cases same
    | cons c rest =>
        obtain ⟨first, later⟩ := List.cons.inj same
        exact ⟨c, rest, rfl, first, later⟩
  · rintro ⟨c, rest, rfl, first, later⟩
    exact List.cons_eq_cons.2 ⟨first, later⟩

theorem afterFolded?_eq_some_iff {beginning s rest : Text} :
    afterFolded? beginning s = some rest ↔ ∃ read, s = read ++ rest ∧ SameFolded read beginning := by
  induction beginning generalizing s with
  | nil =>
      rw [afterFolded?]
      constructor
      · rintro ⟨⟩
        exact ⟨[], rfl, rfl⟩
      · rintro ⟨read, rfl, same⟩
        rw [List.eq_nil_of_length_eq_zero same.length_eq]
        rfl
  | cons p more ih =>
      cases s with
      | nil =>
          rw [afterFolded?]
          constructor
          · rintro ⟨⟩
          · rintro ⟨read, empty, same⟩
            rw [(List.nil_eq_append_iff.1 empty).1] at same
            cases same
      | cons c tail =>
          rw [afterFolded?]
          constructor
          · intro found
            split at found
            · rename_i first
              obtain ⟨read, rfl, same⟩ := ih.1 found
              exact ⟨c :: read, rfl, sameFolded_cons_iff.2 ⟨c, read, rfl, first.symm, same⟩⟩
            · cases found
          · rintro ⟨read, split, same⟩
            obtain ⟨d, others, rfl, first, later⟩ := sameFolded_cons_iff.1 same
            obtain ⟨rfl, rfl⟩ := List.cons.inj split
            rw [if_pos first.symm]
            exact ih.2 ⟨others, rfl, later⟩

end MigrationSquash.Text
