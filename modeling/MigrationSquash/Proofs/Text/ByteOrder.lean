import MigrationSquash.Text.Utf8

/-!
# Order of bytes

Texts are compared character by character.  Main statement: their encodings stand in the same
order, byte by byte, since a longer sequence starts with a greater byte and sequences of one
length are compared from the highest bits on.
-/

set_option autoImplicit false

namespace MigrationSquash.Text

/-- Bytes with a smaller one in front, or with an equal one in front of smaller bytes, are
smaller. -/
theorem ofNat_cons_lt {a b : Nat} {s t : Bytes} (leftByte : a < 256) (rightByte : b < 256)
    (notGreater : a ≤ b) (behind : a = b → s < t) : UInt8.ofNat a :: s < UInt8.ofNat b :: t := by
  rw [List.cons_lt_cons_iff]
  rcases Nat.lt_or_eq_of_le notGreater with less | same
  · left
    rwa [UInt8.lt_iff_toNat_lt, toNat_ofNat_of_lt leftByte, toNat_ofNat_of_lt rightByte]
  · exact Or.inr ⟨congrArg UInt8.ofNat same, behind same⟩

/-- The sequence of a character is smaller than that of a greater one, whatever follows them. -/
theorem utf8EncodeChar_append_lt {c d : Char} (less : c < d) (s t : Bytes) :
    String.utf8EncodeChar c ++ s < String.utf8EncodeChar d ++ t := by
  have bound := toNat_val_lt d
  replace less : c.val.toNat < d.val.toNat := less
  unfold String.utf8EncodeChar
  generalize c.val.toNat = n at less
  generalize d.val.toNat = m at less bound
  dsimp only
  split
  · split
    · exact ofNat_cons_lt (by omega) (by omega) (by omega) (by omega)
    · split
      · exact ofNat_cons_lt (by omega) (by omega) (by omega) (by omega)
      · split <;> exact ofNat_cons_lt (by omega) (by omega) (by omega) (by omega)
  · rw [if_neg (by omega : ¬ m ≤ 0x7F)]
    split
    · split
      · refine ofNat_cons_lt (by omega) (by omega) (by omega) fun _ => ?_
        exact ofNat_cons_lt (by omega) (by omega) (by omega) (by omega)
      · split <;> exact ofNat_cons_lt (by omega) (by omega) (by omega) (by omega)
    · rw [if_neg (by omega : ¬ m ≤ 0x7FF)]
      split
      · split
        · refine ofNat_cons_lt (by omega) (by omega) (by omega) fun _ => ?_
          refine ofNat_cons_lt (by omega) (by omega) (by omega) fun _ => ?_
          exact ofNat_cons_lt (by omega) (by omega) (by omega) (by omega)
        · exact ofNat_cons_lt (by omega) (by omega) (by omega) (by omega)
      · rw [if_neg (by omega : ¬ m ≤ 0xFFFF)]
        refine ofNat_cons_lt (by omega) (by omega) (by omega) fun _ => ?_
        refine ofNat_cons_lt (by omega) (by omega) (by omega) fun _ => ?_
        refine ofNat_cons_lt (by omega) (by omega) (by omega) fun _ => ?_
        exact ofNat_cons_lt (by omega) (by omega) (by omega) (by omega)

theorem encodeUtf8_lt {s t : Text} (less : s < t) : encodeUtf8 s < encodeUtf8 t := by
  change List.Lex (· < ·) s t at less
  induction less with
  | @nil d rest =>
      obtain ⟨b, more, split⟩ := List.exists_cons_of_ne_nil
        (List.ne_nil_of_length_pos (String.length_utf8EncodeChar d ▸ d.utf8Size_pos))
      have whole : encodeUtf8 (d :: rest) = b :: (more ++ encodeUtf8 rest) := by
        rw [← List.cons_append, ← split]
        rfl
      rw [whole]
      exact List.nil_lt_cons _ _
  | cons _ ih => exact List.append_left_lt ih
  | rel less => exact utf8EncodeChar_append_lt less _ _

/-- Encodings are in the order of the texts. -/
theorem encodeUtf8_lt_iff {s t : Text} : encodeUtf8 s < encodeUtf8 t ↔ s < t := by
  refine ⟨fun less => ?_, encodeUtf8_lt⟩
  rcases Std.Trichotomous.rel_or_eq_or_rel_swap (r := fun a b : Text => a < b) (a := s) (b := t)
    with before | rfl | behind
  · exact before
  · exact absurd less (List.lt_irrefl _)
  · exact absurd (encodeUtf8_lt behind) (List.lt_asymm less)

end MigrationSquash.Text
