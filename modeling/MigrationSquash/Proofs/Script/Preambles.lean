import MigrationSquash.Proofs.Script.Searches

/-!
# Blocks of an outline

What the first pass over a script reads.  Main statements: a block is read from its start to its
end, whatever follows, and no other text of an outline starts one.
-/

set_option autoImplicit false

namespace MigrationSquash.Script

open Pattern
open Text (AllBlank SameFolded foldCase isBlank isWord)

section Contains

variable {needle s : Text}

theorem containsIgnoringCase_append (before behind : Text)
    (inside : Text.containsIgnoringCase s needle = true) :
    Text.containsIgnoringCase (before ++ (s ++ behind)) needle = true := by
  rw [Text.containsIgnoringCase, Text.contains_iff] at inside ⊢
  rw [List.map_append, List.map_append]
  exact inside.trans ⟨before.map Char.toLower, behind.map Char.toLower, by rw [List.append_assoc]⟩

end Contains

section Block

variable {pattern : Pattern} {read s t : Text}

theorem prefers_through (free : Free pattern s (read ++ t)) (prefers : Prefers pattern read t) :
    Prefers (through pattern) (s ++ read) t := by
  intro left
  rw [List.append_assoc]
  change ∃ left' others, through.go pattern left (s ++ (read ++ t)) = _
  induction s generalizing left with
  | nil =>
      obtain ⟨left', others, found⟩ := prefers left
      refine ⟨left', [], ?_⟩
      rw [List.nil_append]
      cases split : read ++ t with
      | nil => rw [through.go, ← split, found, List.take_succ_cons, List.take_zero]
      | cons c more => rw [through.go, ← split, found]
  | cons c rest ih =>
      rw [List.cons_append, through.go, ← List.cons_append,
        free left (c :: rest) (List.cons_ne_nil _ _) List.suffix_rfl]
      exact ih (fun left rest' nonempty behind =>
        free left rest' nonempty (behind.trans (List.suffix_cons c rest))) (some c)

/-- What ends a block. -/
def blockEnd : Pattern :=
  sequence [word "END".toList, someBlanks, word blockMarker, blanks, word [';']]

theorem prefers_blockEnd (t : Text) : Prefers blockEnd "END $EF$;".toList t :=
  (prefers_word "END".toList _).sequence ((prefers_someBlanks (by rfl)).sequence
    ((prefers_word blockMarker _).sequence ((yields_blanks (by rfl)).prefers.sequence
      (prefers_word [';'] t).last)))

/-- Behind its first word the end of a block does not run into another such end. -/
theorem no_end_behind_word {gap marker rest back after : Text} (blank : AllBlank gap)
    (same : SameFolded marker blockMarker) (short : rest.length < gap.length + marker.length)
    (split : rest ++ 'E' :: 'N' :: 'D' :: back = gap ++ (marker ++ after)) : False := by
  induction gap generalizing rest with
  | cons c gap ih =>
      cases rest with
      | nil =>
          have visible := blank c List.mem_cons_self
          rw [← (List.cons.inj split).1] at visible
          exact absurd visible (by decide)
      | cons d rest =>
          rw [List.length_cons, List.length_cons, Nat.add_right_comm] at short
          exact ih (fun c member => blank c (List.mem_cons_of_mem _ member))
            (Nat.lt_of_succ_lt_succ short) (List.cons.inj split).2
  | nil =>
      have folded : SameFolded marker ['$', 'E', 'F', '$'] := same
      obtain ⟨i, _, rfl, isFirst, folded⟩ := Text.sameFolded_cons_iff.1 folded
      obtain ⟨j, _, rfl, -, folded⟩ := Text.sameFolded_cons_iff.1 folded
      obtain ⟨k, _, rfl, isThird, folded⟩ := Text.sameFolded_cons_iff.1 folded
      obtain ⟨l, _, rfl, isLast, folded⟩ := Text.sameFolded_cons_iff.1 folded
      obtain rfl := List.eq_nil_of_length_eq_zero folded.length_eq
      simp only [List.nil_append, List.cons_append] at split
      rcases rest with _ | ⟨_, _ | ⟨_, _ | ⟨_, _ | ⟨_, rest⟩⟩⟩⟩
      · cases split
        exact absurd isFirst (by decide)
      · cases split
        exact absurd isThird (by decide)
      · cases split
        exact absurd isThird (by decide)
      · cases split
        exact absurd isLast (by decide)
      · simp only [List.length_cons, List.length_nil] at short
        omega

/-- The end of a block starts in a text only if its marker stands there. -/
theorem free_blockEnd (lacks : Lacks (word blockMarker) s) (t : Text) :
    Free blockEnd s ("END $EF$;".toList ++ t) := by
  intro left rest nonempty behind
  rw [List.eq_nil_iff_forall_not_mem]
  intro stop found
  unfold blockEnd at found
  simp only [mem_sequence_cons_iff, someBlanks, mem_word_iff, mem_someRun_iff] at found
  obtain ⟨_, ⟨start, startReads, sameStart⟩, _, ⟨gap, gapReads, -, gapBlank⟩, middle,
    ⟨marker, markerReads, sameMarker⟩, -⟩ := found
  have whole : rest ++ 'E' :: 'N' :: 'D' :: (" $EF$;".toList ++ t) =
      start ++ (gap ++ (marker ++ middle.rest)) := by
    have split := (startReads.trans (gapReads.trans markerReads)).1
    simp only [List.append_assoc] at split
    exact split
  have absent : ¬ marker <:+: rest := fun inside =>
    (spells_word blockMarker).lacks_iff.1 lacks marker sameMarker (inside.trans behind.isInfix)
  have short : rest.length < start.length + (gap.length + marker.length) := by
    by_contra long
    have begins : start ++ (gap ++ marker) <+: rest ++ 'E' :: 'N' :: 'D' :: (" $EF$;".toList ++ t) :=
      ⟨middle.rest, by rw [whole]; simp only [List.append_assoc]⟩
    obtain ⟨more, rfl⟩ := List.prefix_of_prefix_length_le begins (List.prefix_append rest _)
      (by simpa only [List.length_append] using Nat.le_of_not_lt long)
    exact absent ⟨start ++ gap, more, by simp only [List.append_assoc]⟩
  have folded : SameFolded start ['E', 'N', 'D'] := sameStart
  obtain ⟨e, _, rfl, -, folded⟩ := Text.sameFolded_cons_iff.1 folded
  obtain ⟨n, _, rfl, isSecond, folded⟩ := Text.sameFolded_cons_iff.1 folded
  obtain ⟨d, _, rfl, isThird, folded⟩ := Text.sameFolded_cons_iff.1 folded
  obtain rfl := List.eq_nil_of_length_eq_zero folded.length_eq
  rcases rest with _ | ⟨_, _ | ⟨_, _ | ⟨_, rest⟩⟩⟩
  · exact nonempty rfl
  · simp only [List.cons_append, List.nil_append, List.cons.injEq] at whole
    rw [← whole.2.1] at isSecond
    exact absurd isSecond (by decide)
  · simp only [List.cons_append, List.nil_append, List.cons.injEq] at whole
    rw [← whole.2.2.1] at isThird
    exact absurd isThird (by decide)
  · simp only [List.cons_append, List.nil_append, List.cons.injEq] at whole
    simp only [List.length_cons, List.length_nil] at short
    exact no_end_behind_word gapBlank sameMarker (by omega) whole.2.2.2

/-- A block is read from its start to its end. -/
theorem prefers_preamble (block : Block) (t : Text) : Prefers preamble block.text t := by
  have inner : Prefers (through blockEnd) (block.inner ++ "END $EF$;".toList) t :=
    prefers_through (free_blockEnd block.whole t) (prefers_blockEnd t)
  have whole := (prefers_word "DO".toList _).sequence ((prefers_someBlanks (by rfl)).sequence
    ((prefers_word blockMarker _).sequence inner.last))
  exact whole

/-- A block is read only where its start is. -/
theorem preamble_eq_nil {cursor : Cursor} (start : opensBlock cursor = []) : preamble cursor = [] := by
  change sequence [word "DO".toList, someBlanks, word blockMarker] _ = [] at start
  change sequence ([word "DO".toList, someBlanks, word blockMarker] ++ [through blockEnd]) _ = []
  rw [sequence_append, start]
  rfl

/-- No block starts in a text without its start. -/
theorem free_preamble (ends : s.getLast? = some ';') (lacks : Lacks opensBlock s) (t : Text) :
    Free preamble s t := fun left rest nonempty behind =>
  preamble_eq_nil (free_phrase (by decide) ends lacks t left rest nonempty behind)

/-- The guarded creation of the history table starts in no text without its start. -/
theorem free_guardedCreate {table : Text} (ends : s.getLast? = some ';')
    (lacks : Lacks opensGuard s) (t : Text) : Free (guardedCreate table) s t :=
  (free_phrase (by decide) ends lacks t).sequence _

/-- The creation of the history table starts in no text without its start. -/
theorem free_createTable {table : Text} (ends : s.getLast? = some ';')
    (lacks : Lacks opensTable s) (t : Text) : Free (createTable table) s t :=
  (free_phrase (by decide) ends lacks t).sequence _

end Block

end MigrationSquash.Script
