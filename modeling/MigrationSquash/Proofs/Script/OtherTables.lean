import MigrationSquash.Proofs.Script.Emitted
import MigrationSquash.Proofs.Script.NormalForm
import MigrationSquash.Proofs.Script.Preambles

/-!
# Scripts on other tables

A script of statements on other tables than the history table holds nothing to remove.  Main
statement: it comes out with all of its statements exactly if none of them names its table so that
it is mistaken for the history table, and nothing is found inside of the statements.
-/

set_option autoImplicit false

namespace MigrationSquash.Script

open Text (AllBlank SameFolded isBlank isWord pieces trim)

/-- Texts one after the other with blanks around each of them. -/
def Spaced : List Text → Text → Prop
  | [], s => AllBlank s
  | text :: rest, s =>
      ∃ gap behind, s = gap ++ (text ++ behind) ∧ AllBlank gap ∧ Spaced rest behind

section Spaced

variable {texts : List Text} {s t : Text}

/-- Texts with blanks behind each of them. -/
theorem spaced_flatMap {gap : Text} (blank : AllBlank gap) (texts : List Text) :
    Spaced texts (texts.flatMap (· ++ gap)) := by
  have behind (texts : List Text) : Spaced texts (gap ++ texts.flatMap (· ++ gap)) := by
    induction texts with
    | nil => simpa [Spaced] using blank
    | cons text rest ih => exact ⟨gap, gap ++ rest.flatMap (· ++ gap), by simp, blank, ih⟩
  cases texts with
  | nil => simp [Spaced, AllBlank]
  | cons text rest => exact ⟨[], _, by simp, List.forall_mem_nil _, behind rest⟩

theorem Spaced.holds (spaced : Spaced texts s) (member : t ∈ texts) : t <:+: s := by
  induction texts generalizing s with
  | nil => cases member
  | cons text rest ih =>
      obtain ⟨gap, behind, rfl, -, later⟩ := spaced
      rcases List.mem_cons.1 member with rfl | further
      · exact ⟨gap, behind, by simp⟩
      · exact (ih later further).trans ⟨gap ++ text, [], by simp⟩

theorem Spaced.visibleCount_eq (spaced : Spaced texts s) :
    visibleCount s = visibleCount texts.flatten := by
  induction texts generalizing s with
  | nil => simpa using visibleCount_eq_zero_iff.2 spaced
  | cons text rest ih =>
      obtain ⟨gap, behind, rfl, blank, later⟩ := spaced
      simp [visibleCount_eq_zero_iff.2 blank, ih later]

theorem allBlank_collapseFrom (blank : AllBlank s) : AllBlank (collapseFrom 0 s) :=
  fun c member => blank c ((thins_collapseFrom s 0).sublist.subset member)

/-- Shortening runs of blank lines shortens them in the texts and between them. -/
theorem Spaced.collapse (spaced : Spaced texts s) (trimmed : ∀ text ∈ texts, Trimmed text) :
    Spaced (texts.map (collapseFrom 0)) (collapseFrom 0 s) := by
  induction texts generalizing s with
  | nil => exact allBlank_collapseFrom spaced
  | cons text rest ih =>
      obtain ⟨gap, behind, rfl, blank, later⟩ := spaced
      obtain ⟨first, others⟩ := List.forall_mem_cons.1 trimmed
      obtain ⟨c, more, split, visible⟩ := first.starts
      obtain ⟨front, collapsed⟩ := exists_collapseFrom_concat visible (Nat.zero_le gap.length)
      have gapBlank : AllBlank front := by
        have shorter := (thins_collapseFrom (gap ++ [c]) 0).sublist
        rw [collapsed, List.append_sublist_append_right] at shorter
        exact fun d member => blank d (shorter.subset member)
      refine ⟨front, collapseFrom 0 behind, ?_, gapBlank, ih later others⟩
      rw [← first.collapseFrom_append, split, List.cons_append, collapseFrom_visible visible,
        collapseFrom_append_visible visible (Nat.zero_le _), collapsed, List.append_assoc]
      rfl

/-- Blanks before the texts may be missing. -/
theorem Spaced.of_blanks_append (trimmed : ∀ text ∈ texts, Trimmed text) (blank : AllBlank t)
    (spaced : Spaced texts (t ++ s)) : Spaced texts s := by
  cases texts with
  | nil => exact fun c member => spaced c (List.mem_append_right t member)
  | cons text rest =>
      obtain ⟨gap, behind, split, gapBlank, later⟩ := spaced
      obtain ⟨c, more, rfl, visible⟩ := (trimmed text List.mem_cons_self).starts
      rcases List.append_eq_append_iff.1 split with ⟨gap', rfl, rfl⟩ | ⟨front, rfl, same⟩
      · exact ⟨gap', behind, rfl, fun d member => gapBlank d (List.mem_append_right t member),
          later⟩
      · cases front with
        | nil => exact ⟨[], behind, same.symm, List.forall_mem_nil _, later⟩
        | cons d others =>
            obtain ⟨rfl, -⟩ := List.cons.inj same
            rw [blank c (by simp)] at visible
            cases visible

/-- Blanks behind the texts may be missing. -/
theorem Spaced.of_append_blanks (trimmed : ∀ text ∈ texts, Trimmed text) (blank : AllBlank t)
    (spaced : Spaced texts (s ++ t)) : Spaced texts s := by
  induction texts generalizing s t with
  | nil => exact fun c member => spaced c (List.mem_append_left t member)
  | cons text rest ih =>
      obtain ⟨gap, behind, split, gapBlank, later⟩ := spaced
      obtain ⟨first, others⟩ := List.forall_mem_cons.1 trimmed
      rw [← List.append_assoc] at split
      rcases List.append_eq_append_iff.1 split with ⟨back, whole, rfl⟩ | ⟨behind', rfl, rfl⟩
      · -- What is left of the blanks cannot end in the text.
        obtain ⟨front, c, rfl, visible⟩ := first.ends
        have nothing : back = [] := by
          rcases List.eq_nil_or_concat back with rfl | ⟨begun, d, rfl⟩
          · rfl
          · rw [List.concat_eq_append, ← List.append_assoc, ← List.append_assoc] at whole
            obtain rfl := List.singleton_inj.1 (List.append_inj' whole rfl).2
            rw [blank c (by simp)] at visible
            cases visible
        subst nothing
        rw [List.append_nil] at whole
        rw [List.nil_append] at blank
        refine ⟨gap, [], by rw [List.append_nil, whole], gapBlank, ?_⟩
        exact ih (s := []) others blank later
      · exact ⟨gap, behind', by rw [List.append_assoc], gapBlank, ih others blank later⟩

theorem Spaced.trim (trimmed : ∀ text ∈ texts, Trimmed text) (spaced : Spaced texts s) :
    Spaced texts (trim s) := by
  obtain ⟨front, back, split, frontBlank, backBlank⟩ := Text.blanks_append_trim s
  rw [split] at spaced
  exact (spaced.of_blanks_append trimmed frontBlank).of_append_blanks trimmed backBlank

end Spaced

section Found

open Pattern

variable {found? : Cursor → Option Found} {pattern : Pattern} {table s : Text} {span : Span}

/-- A search that finds no piece finds nothing at any place. -/
theorem found?_of_spansFrom_eq_nil {before rest : Text} {c : Char} {left : Option Char}
    {position : Nat} (nothing : spansFrom found? left position 0 (before ++ c :: rest) = []) :
    found? ⟨before.getLast?.or left, c :: rest⟩ = none := by
  induction before generalizing left position with
  | nil =>
      rw [List.nil_append, spansFrom] at nothing
      split at nothing
      · cases nothing
      · assumption
  | cons d more ih =>
      rw [List.cons_append, spansFrom] at nothing
      rw [Procedure.getLast?_cons_or]
      split at nothing
      · cases nothing
      · exact ih nothing

theorem length?_eq_none_iff {cursor : Cursor} :
    pattern.length? cursor = none ↔ pattern cursor = [] := by
  rw [length?, Option.map_eq_none_iff, List.head?_eq_none_iff]

/-- What the searches for the history table find in a script. -/
def searched (table s : Text) : List Span :=
  occurrences (guardedCreate table) s ++ (statements (createTable table) s ++
    statements (historyRows table) s)

theorem searched_eq_nil_iff :
    searched table s = [] ↔ occurrences (guardedCreate table) s = [] ∧
      statements (createTable table) s = [] ∧ statements (historyRows table) s = [] := by
  simp [searched]

theorem exists_of_mem_spans (member : span ∈ spans found? s) :
    ∃ left, (found? ⟨left, s.drop span.start⟩).isSome = true := by
  obtain ⟨before, c, rest, left, found, rfl, hit, rfl⟩ := exists_of_mem_spansFrom member
  exact ⟨left, by simp [hit]⟩

theorem ne_nil_of_length? {cursor : Cursor} (some : (pattern.length? cursor).isSome = true) :
    pattern cursor ≠ [] := by
  intro nothing
  rw [length?_eq_none_iff.2 nothing] at some
  cases some

theorem exists_of_mem_occurrences (member : span ∈ occurrences pattern s) :
    ∃ left, pattern ⟨left, s.drop span.start⟩ ≠ [] := by
  obtain ⟨left, found⟩ := exists_of_mem_spans member
  rw [Option.isSome_map] at found
  exact ⟨left, ne_nil_of_length? found⟩

theorem exists_of_mem_statements (member : span ∈ statements pattern s) :
    ∃ left, pattern ⟨left, s.drop span.start⟩ ≠ [] := by
  obtain ⟨left, found⟩ := exists_of_mem_spans member
  rw [Option.isSome_map] at found
  exact ⟨left, ne_nil_of_length? found⟩

/-- What is found starts where one of the searches reads something. -/
theorem exists_of_mem_searched (member : span ∈ searched table s) :
    ∃ pattern ∈ searches table, ∃ left, pattern ⟨left, s.drop span.start⟩ ≠ [] := by
  simp only [searched, List.mem_append] at member
  rcases member with guarded | created | rows
  · exact ⟨guardedCreate table, by simp [searches], exists_of_mem_occurrences guarded⟩
  · exact ⟨createTable table, by simp [searches], exists_of_mem_statements created⟩
  · exact ⟨historyRows table, by simp [searches], exists_of_mem_statements rows⟩

/-- Where nothing is found no search reads anything. -/
theorem searches_eq_nil_of_searched {before rest : Text} {c : Char}
    (nothing : searched table (before ++ c :: rest) = []) :
    ∀ pattern ∈ searches table, pattern ⟨before.getLast?, c :: rest⟩ = [] := by
  obtain ⟨guarded, created, rows⟩ := searched_eq_nil_iff.1 nothing
  have silent {found? : Cursor → Option Found} (nothing : spans found? (before ++ c :: rest) = []) :
      found? ⟨before.getLast?, c :: rest⟩ = none := by
    have here := found?_of_spansFrom_eq_nil nothing
    rwa [Option.or_none] at here
  simp only [searches, List.forall_mem_cons]
  refine ⟨?_, ?_, ?_, List.forall_mem_nil _⟩
  · exact length?_eq_none_iff.1 (Option.map_eq_none_iff.1 (silent guarded))
  · exact length?_eq_none_iff.1 (Option.map_eq_none_iff.1 (silent created))
  · exact length?_eq_none_iff.1 (Option.map_eq_none_iff.1 (silent rows))

end Found

/-- Nothing inside of the statements of a script is read: what is found of the history table starts
where a statement does, and no literal or comment holds a preamble, a line that controls a
transaction, a separator behind an empty batch or a run of more than two blank lines. -/
structure Undisturbed (table : Text) (script : List Emitted) (s : Text) : Prop where
  searches : ∀ span ∈ searched table s, ∃ statement ∈ script, ∃ head ∈ statement.heads,
    head <+: s.drop span.start
  preambles : ∀ span ∈ occurrences preamble s,
    Text.containsIgnoringCase (span.text s) "pg_namespace".toList = false
  control : ∀ line ∈ pieces s, transactionControl? line = none
  batches : dropEmptyFrom false (pieces s) = pieces s
  gaps : ∀ statement ∈ script, NoGap statement.text

section Quiet

open Pattern

variable {table s rest : Text} {texts : List Text} {first second : Text} {left : Option Char}
  {script : List Emitted}

/-- The words with which all starts that is looked for of the history table. -/
def openings : List (Text × Text) :=
  [("IF".toList, "OBJECT_ID".toList), ("CREATE".toList, "TABLE".toList),
    ("INSERT".toList, "INTO".toList), ("DELETE".toList, "FROM".toList)]

theorem exists_opening {pattern : Pattern} {cursor : Cursor} (among : pattern ∈ searches table)
    (found : pattern cursor ≠ []) : ∃ words ∈ openings, phrase [words.1, words.2] cursor ≠ [] := by
  by_contra none
  simp only [openings, not_exists, not_and, List.forall_mem_cons, not_not] at none
  obtain ⟨noGuard, noCreation, noInsertion, noDeletion, -⟩ := none
  simp only [searches, List.mem_cons, List.not_mem_nil, or_false] at among
  rcases among with rfl | rfl | rfl
  · exact found (sequence_of_eq_nil noGuard)
  · exact found (sequence_of_eq_nil noCreation)
  · apply found
    apply sequence_of_eq_nil
    simp only [Pattern.choice, List.flatMap_cons, List.flatMap_nil, noInsertion, noDeletion,
      List.append_nil]

/-- A statement in which these words are read at its heads only, and which starts no block. -/
structure Emitted.Quiet (statement : Emitted) : Prop where
  openings : ∀ words ∈ openings, ∀ rest ∈ statement.text.tails,
    phrase [words.1, words.2] ⟨none, rest⟩ ≠ [] → rest ∈ statement.heads
  block : Lacks opensBlock statement.text

theorem Emitted.quiet_iff {statement : Emitted} :
    statement.Quiet ↔ (Script.openings.all fun words => statement.text.tails.all fun rest =>
      (phrase [words.1, words.2] ⟨none, rest⟩).isEmpty || statement.heads.contains rest) = true ∧
      Lacks opensBlock statement.text := by
  simp only [List.all_eq_true, Bool.or_eq_true, List.isEmpty_iff, List.contains_iff_mem]
  constructor
  · rintro ⟨openings, block⟩
    refine ⟨fun words among rest inText => ?_, block⟩
    exact or_iff_not_imp_left.2 (openings words among rest inText)
  · rintro ⟨openings, block⟩
    exact ⟨fun words among rest inText => (openings words among rest inText).resolve_left, block⟩

instance (statement : Emitted) : Decidable statement.Quiet :=
  decidable_of_iff _ Emitted.quiet_iff.symm

/-- What a text ends with starts in its second part, or in its first one. -/
theorem suffix_append_cases {before behind : Text} (suffix : rest <:+ before ++ behind) :
    rest <:+ behind ∨ ∃ front, front ≠ [] ∧ front <:+ before ∧ rest = front ++ behind := by
  obtain ⟨start, same⟩ := suffix
  rcases List.append_eq_append_iff.1 same with ⟨front, rfl, rfl⟩ | ⟨middle, rfl, rfl⟩
  · cases front with
    | nil => exact Or.inl List.suffix_rfl
    | cons c more => exact Or.inr ⟨c :: more, by simp, List.suffix_append start _, rfl⟩
  · exact Or.inl (List.suffix_append middle rest)

/-- Two words are read in a script only where they are read in one of its texts. -/
theorem Spaced.exists_of_phrase (avoids : Avoids first second ';')
    (opens : Opens (phrase [first, second])) {allowed : Text → Prop}
    (spaced : Spaced texts s) (ends : ∀ text ∈ texts, text.getLast? = some ';')
    (quiet : ∀ text ∈ texts, ∀ rest ∈ text.tails, phrase [first, second] ⟨none, rest⟩ ≠ [] →
      allowed rest)
    (suffix : rest <:+ s) (found : phrase [first, second] ⟨left, rest⟩ ≠ []) :
    ∃ head, allowed head ∧ head <+: rest := by
  obtain ⟨c, more, starts, visible⟩ : ∃ c more, rest = c :: more ∧ isBlank c = false := by
    obtain ⟨stop, member⟩ := List.exists_mem_of_ne_nil _ found
    obtain ⟨c, read, visible, reads⟩ := opens _ stop member
    exact ⟨c, _, reads.1, visible⟩
  have noBlank {t : Text} (blank : AllBlank t) : c ∉ t := by
    intro member
    rw [blank c member] at visible
    cases visible
  induction texts generalizing s with
  | nil => exact absurd (suffix.subset (by simp [starts])) (noBlank spaced)
  | cons text others ih =>
      obtain ⟨gap, behind, rfl, blank, later⟩ := spaced
      obtain ⟨textEnds, othersEnd⟩ := List.forall_mem_cons.1 ends
      obtain ⟨textQuiet, othersQuiet⟩ := List.forall_mem_cons.1 quiet
      rcases suffix_append_cases suffix with suffix | ⟨front, nonempty, inGap, rfl⟩
      · rcases suffix_append_cases suffix with suffix | ⟨front, nonempty, inText, rfl⟩
        · exact ih later othersEnd othersQuiet suffix
        · have last : front.getLast? = some ';' := by
            obtain ⟨before, rfl⟩ := inText
            rwa [List.getLast?_append_of_ne_nil _ nonempty] at textEnds
          obtain ⟨read, formed, stop, rfl⟩ :=
            (spells_phrase first second).exists_read (fun _ => avoids.not_mem) last found
          have within := (spells_phrase first second _ _).2
            ⟨read, Cursor.reads_append none read stop, formed⟩
          refine ⟨read ++ stop, textQuiet _ ?_ (List.ne_nil_of_mem within), List.prefix_append _ _⟩
          exact (List.mem_tails _ _).2 inText
      · obtain ⟨d, front, rfl⟩ := List.exists_cons_of_ne_nil nonempty
        obtain ⟨rfl, -⟩ := List.cons.inj starts
        exact absurd (inGap.subset (by simp)) (noBlank blank)

theorem opening_starts {words : Text × Text} (isOpening : words ∈ openings) :
    Avoids words.1 words.2 ';' ∧ Opens (phrase [words.1, words.2]) := by
  have avoids : ∀ words ∈ openings, Avoids words.1 words.2 ';' := by decide
  refine ⟨avoids words isOpening, ?_⟩
  simp only [openings, List.mem_cons, List.not_mem_nil, or_false] at isOpening
  rcases isOpening with rfl | rfl | rfl | rfl <;> exact opens_phrase (by decide) _ _

/-- Quiet statements disturb no search. -/
theorem undisturbed_of_quiet (spaced : Spaced (script.map Emitted.text) s)
    (quiet : ∀ statement ∈ script, statement.Quiet)
    (gaps : ∀ statement ∈ script, NoGap statement.text)
    (control : ∀ line ∈ pieces s, transactionControl? line = none)
    (separators : ∀ line ∈ pieces s, isSeparator line = false) : Undisturbed table script s := by
  have ends : ∀ text ∈ script.map Emitted.text, text.getLast? = some ';' := by
    simpa using fun statement _ => statement.getLast?_text
  refine ⟨?_, ?_, control, dropEmptyFrom_of_none separators false, gaps⟩
  · intro span member
    obtain ⟨pattern, among, left, found⟩ := exists_of_mem_searched member
    obtain ⟨words, isOpening, found⟩ := exists_opening among found
    obtain ⟨avoids, opens⟩ := opening_starts isOpening
    have atHeads : ∀ text ∈ script.map Emitted.text, ∀ rest ∈ text.tails,
        phrase [words.1, words.2] ⟨none, rest⟩ ≠ [] →
          ∃ statement ∈ script, rest ∈ statement.heads := by
      intro text member rest inText found
      obtain ⟨statement, inScript, rfl⟩ := List.mem_map.1 member
      refine ⟨statement, inScript, ?_⟩
      exact (quiet statement inScript).openings words isOpening rest inText found
    obtain ⟨head, ⟨statement, inScript, isHead⟩, starts⟩ :=
      spaced.exists_of_phrase avoids opens ends atHeads (List.drop_suffix span.start s) found
    exact ⟨statement, inScript, head, isHead, starts⟩
  · intro span member
    obtain ⟨left, found⟩ := exists_of_mem_occurrences member
    have nowhere : ∀ text ∈ script.map Emitted.text, ∀ rest ∈ text.tails,
        opensBlock ⟨none, rest⟩ ≠ [] → False := by
      intro text member rest inText found
      obtain ⟨statement, inScript, rfl⟩ := List.mem_map.1 member
      exact found ((quiet statement inScript).block rest inText)
    have avoids : Avoids "DO".toList blockMarker ';' := by decide
    obtain ⟨_, impossible, -⟩ : ∃ head, False ∧ head <+: s.drop span.start :=
      spaced.exists_of_phrase avoids (opens_phrase (by decide) _ _) ends nowhere
        (List.drop_suffix span.start s) fun nothing => found (preamble_eq_nil nothing)
    exact impossible.elim

end Quiet

section Kept

variable {table s raw : Text} {script : List Emitted}

theorem trimmed_texts (script : List Emitted) : ∀ text ∈ script.map Emitted.text, Trimmed text := by
  intro text member
  obtain ⟨statement, -, rfl⟩ := List.mem_map.1 member
  exact statement.trimmed_text

/-- Statements that are not mistaken leave nothing to remove. -/
theorem Undisturbed.inert (undisturbed : Undisturbed table script s) (identifier : Identifier table)
    (differs : ∀ statement ∈ script, ¬ SameFolded statement.name.table.name table)
    (clear : ∀ statement ∈ script, ¬ statement.Mistaken table) : Inert table s := by
  have nothing : searched table s = [] := by
    rw [List.eq_nil_iff_forall_not_mem]
    intro span member
    obtain ⟨pattern, among, left, found⟩ := exists_of_mem_searched member
    obtain ⟨statement, inScript, head, inHeads, after, split⟩ := undisturbed.searches span member
    rw [← split] at found
    exact found (Emitted.searches_eq_nil identifier (differs statement inScript)
      (clear statement inScript) inHeads pattern among)
  obtain ⟨guarded, created, rows⟩ := searched_eq_nil_iff.1 nothing
  exact ⟨undisturbed.preambles, guarded, created, rows, undisturbed.control, undisturbed.batches⟩

/-- A script in which a statement is mistaken holds something to remove. -/
theorem Inert.clear (inert : Inert table s) (identifier : Identifier table)
    (spaced : Spaced (script.map Emitted.text) s) :
    ∀ statement ∈ script, ¬ statement.Mistaken table := by
  intro statement member mistaken
  obtain ⟨before, after, split⟩ := spaced.holds (List.mem_map_of_mem member)
  obtain ⟨pattern, among, found⟩ :=
    statement.exists_search identifier mistaken before.getLast? after
  obtain ⟨c, more, starts, -⟩ := statement.trimmed_text.starts
  have nothing := searched_eq_nil_iff.2 ⟨inert.guarded, inert.created, inert.rows⟩
  rw [← split, List.append_assoc, starts] at nothing
  rw [starts] at found
  exact found (searches_eq_nil_of_searched nothing pattern among)

/-- A script of statements on other tables comes out with all of them exactly if none is mistaken
for a statement on the history table and nothing inside of them is read. -/
theorem sanitize_keeps_iff (identifier : Identifier table)
    (spaced : Spaced (script.map Emitted.text) (Text.replaceAll ['\r', '\n'] ['\n'] raw))
    (differs : ∀ statement ∈ script, ¬ SameFolded statement.name.table.name table) :
    Spaced (script.map Emitted.text) (sanitize table raw) ↔
      (∀ statement ∈ script, ¬ statement.Mistaken table) ∧
        Undisturbed table script (Text.replaceAll ['\r', '\n'] ['\n'] raw) := by
  have removes := removes_strip table
  rw [sanitize_eq]
  generalize Text.replaceAll ['\r', '\n'] ['\n'] raw = s at spaced ⊢
  constructor
  · intro kept
    have inert : Inert table s := by
      refine removes.idle_of_le s ?_
      calc visibleCount s
          = visibleCount (trim (collapseFrom 0 (strip table s))) := by
            rw [spaced.visibleCount_eq, kept.visibleCount_eq]
        _ ≤ visibleCount (collapseFrom 0 (strip table s)) := visibleCount_trim_le _
        _ ≤ visibleCount (strip table s) := visibleCount_collapseFrom_le 0 _
    have noGap : NoGap (trim (collapseFrom 0 (strip table s))) := noGap_trim_collapse _
    refine ⟨inert.clear identifier spaced, ?_, inert.preambles, inert.control, inert.batches, ?_⟩
    · intro span member
      rw [searched_eq_nil_iff.2 ⟨inert.guarded, inert.created, inert.rows⟩] at member
      cases member
    · intro statement member
      exact noGap.part (kept.holds (List.mem_map_of_mem member))
  · rintro ⟨clear, undisturbed⟩
    have same : (script.map Emitted.text).map (collapseFrom 0) = script.map Emitted.text := by
      refine (List.map_congr_left fun text member => ?_).trans (List.map_id _)
      obtain ⟨statement, inScript, rfl⟩ := List.mem_map.1 member
      exact collapseFrom_of_noGap (undisturbed.gaps statement inScript)
    have collapsed := spaced.collapse (trimmed_texts script)
    rw [same] at collapsed
    rw [removes.eq_of_idle s (undisturbed.inert identifier differs clear)]
    exact collapsed.trim (trimmed_texts script)

end Kept

namespace Sample

def bracketed (name : Text) (nonempty : name ≠ []) : Part := ⟨.brackets, name, nonempty, nofun⟩

def quoted (name : Text) (nonempty : name ≠ []) : Part := ⟨.quotes, name, nonempty, nofun⟩

theorem allBlank_space : AllBlank [' '] := Text.allBlank_singleton (by decide)

theorem allBlank_feed : AllBlank ['\n'] := Text.allBlank_singleton (by decide)

theorem allBlank_feed_indent : AllBlank "\n    ".toList := Text.allBlank_iff.2 (by decide)

theorem follows_row : TableName.Follows " ([Id]) VALUES (1);".toList :=
  ⟨by decide, [' '], '(', _, rfl, allBlank_space, by decide, by decide⟩

theorem feed_ne_nil : ['\n'] ≠ [] := List.cons_ne_nil _ _

theorem feed_indent_ne_nil : "\n    ".toList ≠ [] := List.cons_ne_nil _ _

/-- The creation of a table with one column. -/
def oneColumn (name : TableName) : Creation where
  conditional := false
  name := name
  gap := [' ']
  columns := "\n        [Id] int\n    );".toList
  blank := allBlank_space
  ends := rfl

def guarded (name : TableName) : Guard where
  creation := oneColumn name
  before := ['\n']
  inside := "\n    ".toList
  behind := ['\n']
  beforeBlank := allBlank_feed
  insideBlank := allBlank_feed_indent
  behindBlank := allBlank_feed
  beforeNonempty := feed_ne_nil
  insideNonempty := feed_indent_ne_nil

def oneRow (name : TableName) : Rows where
  change := .insertion
  name := name
  tail := " ([Id]) VALUES (1);".toList
  follows := follows_row
  ends := rfl

/-- Tables whose names or schemas have to do with the name of a history table. -/
def otherTables : List Emitted := [
  .guard (guarded
    ⟨some (bracketed "dbo".toList (by decide)), bracketed "Users".toList (by decide)⟩),
  .creation (oneColumn
    ⟨some (quoted "History".toList (by decide)), quoted "Roles".toList (by decide)⟩),
  .rows (oneRow ⟨none, bracketed "OrderHistory".toList (by decide)⟩)]

/-- A script with these statements. -/
def otherScript : Text := (otherTables.map Emitted.text).flatMap (· ++ "\r\n\r\n".toList)

/-- A row of a table in a schema with the name of a history table, and the creation of a table whose
name ends with that name. -/
def mistakenTables : List Emitted := [
  .rows (oneRow
    ⟨some (bracketed "History".toList (by decide)), bracketed "Users".toList (by decide)⟩),
  .guard (guarded ⟨none, bracketed "OrderHistory".toList (by decide)⟩)]

def mistakenScript : Text := (mistakenTables.map Emitted.text).flatMap (· ++ "\n\n".toList)

end Sample

theorem sanitize_keeps_sample :
    Spaced (Sample.otherTables.map Emitted.text)
      (sanitize "History".toList Sample.otherScript) := by
  have read : Text.replaceAll ['\r', '\n'] ['\n'] Sample.otherScript =
      (Sample.otherTables.map Emitted.text).flatMap (· ++ "\n\n".toList) := by decide +kernel
  have blank : AllBlank "\n\n".toList := Text.allBlank_iff.2 (by decide)
  have spaced := spaced_flatMap blank (Sample.otherTables.map Emitted.text)
  rw [← read] at spaced
  have identifier : Identifier "History".toList :=
    ⟨by decide, List.all_iff_forall_prop.1 (by decide)⟩
  refine (sanitize_keeps_iff identifier spaced (by decide +kernel)).2 ⟨by decide +kernel, ?_⟩
  apply undisturbed_of_quiet spaced
  · decide +kernel
  · decide +kernel
  · decide +kernel
  · decide +kernel

/-- Statements on other tables are removed. -/
theorem other_tables_removed :
    (∀ statement ∈ Sample.mistakenTables,
      ¬ SameFolded statement.name.table.name "History".toList) ∧
    sanitize "History".toList Sample.mistakenScript = [] := by decide +kernel

end MigrationSquash.Script
