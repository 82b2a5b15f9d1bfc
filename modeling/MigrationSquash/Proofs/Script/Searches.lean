import MigrationSquash.Proofs.Script.Constructs

/-!
# Searches through an outline

What a search reads at the start of the text it looks for, and why it reads nothing in another
one.  A search for the history table could start in a statement and end in a later text, where a
bracket or a quote in the statement is closed; such a text would go on with a dot and the name of
the table.
-/

set_option autoImplicit false

namespace MigrationSquash.Script

open Pattern
open Text (AllBlank SameFolded foldCase isBlank isWord)

section Omits

variable {c : Char} {pattern : Pattern} {patterns : List Pattern}

/-- A pattern that reads texts without a character. -/
def Omits (c : Char) (pattern : Pattern) : Prop :=
  ∀ cursor, ∀ stop ∈ pattern cursor, ∃ read, cursor.Reads read stop ∧ c ∉ read

theorem omits_word {w : Text} (apart : ∀ d ∈ w, foldCase d ≠ foldCase c) : Omits c (word w) := by
  intro cursor stop member
  obtain ⟨read, reads, same⟩ := mem_word_iff.1 member
  exact ⟨read, reads, not_mem_of_sameFolded apart same⟩

theorem omits_someBlanks (visible : isBlank c = false) : Omits c someBlanks := by
  intro cursor stop member
  obtain ⟨read, reads, -, blank⟩ := mem_someRun_iff.1 member
  refine ⟨read, reads, fun inside => ?_⟩
  rw [blank c inside] at visible
  cases visible

theorem omits_sequence (all : ∀ pattern ∈ patterns, Omits c pattern) :
    Omits c (sequence patterns) := by
  induction patterns with
  | nil =>
      intro cursor stop member
      rw [mem_sequence_nil_iff.1 member]
      exact ⟨[], Cursor.Reads.refl cursor, List.not_mem_nil⟩
  | cons pattern rest ih =>
      intro cursor stop member
      obtain ⟨middle, first, later⟩ := mem_sequence_cons_iff.1 member
      obtain ⟨read, reads, absent⟩ := all pattern List.mem_cons_self cursor middle first
      obtain ⟨more, onward, absentLater⟩ :=
        ih (fun other member => all other (List.mem_cons_of_mem _ member)) middle stop later
      exact ⟨read ++ more, reads.trans onward, fun inside =>
        (List.mem_append.1 inside).elim absent absentLater⟩

theorem omits_choice (all : ∀ pattern ∈ patterns, Omits c pattern) : Omits c (choice patterns) := by
  intro cursor stop member
  obtain ⟨pattern, among, found⟩ := mem_choice_iff.1 member
  exact all pattern among cursor stop found

theorem omits_optional (omits : Omits c pattern) : Omits c (optional pattern) := by
  intro cursor stop member
  rcases mem_optional_iff.1 member with found | rfl
  · exact omits cursor stop found
  · exact ⟨[], Cursor.Reads.refl stop, List.not_mem_nil⟩

theorem omits_phrase {first second : Text} (avoids : Avoids first second c) :
    Omits c (phrase [first, second]) := by
  intro cursor stop member
  obtain ⟨read, reads, phrased⟩ := (spells_phrase first second cursor stop).1 member
  exact ⟨read, reads, avoids.not_mem phrased⟩

end Omits

section Qualified

variable {table s : Text} {cursor stop : Cursor} {texts : List (Option Text)}

theorem sameFolded_singleton {d : Char} (noWord : isWord d = false) {read : Text}
    (same : SameFolded read [d]) : read = [d] := by
  obtain ⟨c, rest, rfl, first, later⟩ := Text.sameFolded_cons_iff.1 same
  rw [Text.eq_of_foldCase_eq noWord first, List.eq_nil_of_length_eq_zero later.length_eq]

/-- A text that holds the name of a table but no semicolon. -/
def Names (table read : Text) : Prop :=
  ';' ∉ read ∧ ∃ name, SameFolded name table ∧ name <:+: read

theorem Names.append {before read behind : Text} (names : Names table read) (first : ';' ∉ before)
    (last : ';' ∉ behind) : Names table (before ++ (read ++ behind)) := by
  obtain ⟨absent, name, same, front, back, rfl⟩ := names
  refine ⟨?_, name, same, before ++ front, back ++ behind, by simp only [List.append_assoc]⟩
  simp only [List.mem_append] at absent ⊢
  tauto

theorem names_of_mem_word (identifier : Identifier table) (member : stop ∈ word table cursor) :
    ∃ read, cursor.Reads read stop ∧ Names table read := by
  obtain ⟨read, reads, same⟩ := mem_word_iff.1 member
  refine ⟨read, reads, not_mem_of_sameFolded (fun d inside folded => ?_) same, read, same,
    List.infix_rfl⟩
  have word := identifier.word d inside
  rw [Text.isWord_eq_of_foldCase_eq folded] at word
  exact absurd word (by decide)

/-- The name of a table, bare or enclosed, is read without a semicolon. -/
theorem names_of_mem_choice (identifier : Identifier table)
    (member : stop ∈ choice [sequence [word ['['], word table, word [']']],
      sequence [word ['"'], word table, word ['"']],
      sequence [boundary, word table, boundary]] cursor) :
    ∃ read, cursor.Reads read stop ∧ Names table read := by
  have enclosed {first last : Char} (firstApart : isWord first = false)
      (lastApart : isWord last = false) (firstOther : first ≠ ';') (lastOther : last ≠ ';')
      (member : stop ∈ sequence [word [first], word table, word [last]] cursor) :
      ∃ read, cursor.Reads read stop ∧ Names table read := by
    simp only [mem_sequence_cons_iff, mem_sequence_nil_iff] at member
    obtain ⟨one, opening, two, name, three, closing, rfl⟩ := member
    obtain ⟨before, beforeReads, same⟩ := mem_word_iff.1 opening
    obtain ⟨behind, behindReads, sameBehind⟩ := mem_word_iff.1 closing
    obtain ⟨read, reads, names⟩ := names_of_mem_word identifier name
    rw [sameFolded_singleton firstApart same] at beforeReads
    rw [sameFolded_singleton lastApart sameBehind] at behindReads
    exact ⟨_, beforeReads.trans (reads.trans behindReads),
      names.append (by simpa using firstOther.symm) (by simpa using lastOther.symm)⟩
  obtain ⟨pattern, among, found⟩ := mem_choice_iff.1 member
  rcases List.mem_cons.1 among with rfl | among
  · exact enclosed (by decide) (by decide) (by decide) (by decide) found
  rcases List.mem_cons.1 among with rfl | among
  · exact enclosed (by decide) (by decide) (by decide) (by decide) found
  obtain rfl := List.mem_singleton.1 among
  simp only [mem_sequence_cons_iff, mem_sequence_nil_iff, mem_boundary_iff] at found
  obtain ⟨one, ⟨rfl, -⟩, two, name, three, ⟨rfl, -⟩, rfl⟩ := found
  exact names_of_mem_word identifier name

/-- The name of a schema is read without a semicolon, at least from the bracket or quote on that
ends it. -/
theorem exists_of_mem_schema
    (member : stop ∈ choice [sequence [word ['['], someRun (· ≠ ']'), word [']']],
      sequence [word ['"'], someRun (· ≠ '"'), word ['"']], someRun isWord] cursor) :
    ∃ before read, cursor.Reads (before ++ read) stop ∧ ';' ∉ read ∧
      (before = [] ∨ ∃ close, read = [close] ∧ (close = ']' ∨ close = '"')) := by
  have enclosed {first last : Char} {inside : Char → Bool} (lastApart : isWord last = false)
      (closes : last = ']' ∨ last = '"')
      (member : stop ∈ sequence [word [first], someRun inside, word [last]] cursor) :
      ∃ before read, cursor.Reads (before ++ read) stop ∧ ';' ∉ read ∧
        (before = [] ∨ ∃ close, read = [close] ∧ (close = ']' ∨ close = '"')) := by
    simp only [mem_sequence_cons_iff, mem_sequence_nil_iff] at member
    obtain ⟨one, opening, two, name, three, closing, rfl⟩ := member
    obtain ⟨before, beforeReads, -⟩ := mem_word_iff.1 opening
    obtain ⟨middle, middleReads, -⟩ := mem_someRun_iff.1 name
    obtain ⟨behind, behindReads, same⟩ := mem_word_iff.1 closing
    rw [sameFolded_singleton lastApart same] at behindReads
    refine ⟨before ++ middle, [last], (beforeReads.trans middleReads).trans behindReads, ?_,
      Or.inr ⟨last, rfl, closes⟩⟩
    rcases closes with rfl | rfl <;> decide
  obtain ⟨pattern, among, found⟩ := mem_choice_iff.1 member
  rcases List.mem_cons.1 among with rfl | among
  · exact enclosed (by decide) (Or.inl rfl) found
  rcases List.mem_cons.1 among with rfl | among
  · exact enclosed (by decide) (Or.inr rfl) found
  obtain rfl := List.mem_singleton.1 among
  obtain ⟨read, reads, -, word⟩ := mem_someRun_iff.1 found
  refine ⟨[], read, reads, fun inside => ?_, Or.inl rfl⟩
  exact absurd (word _ inside) (by decide)

/-- The name of a table behind that of its schema is read without a semicolon, at least from the
bracket or quote on that ends the schema. -/
theorem exists_of_mem_qualified (identifier : Identifier table)
    (member : stop ∈ qualified table cursor) :
    ∃ before read, cursor.Reads (before ++ read) stop ∧ Names table read ∧
      (before = [] ∨ ∃ dotted, Dotted dotted ∧ dotted <+: read) := by
  unfold qualified at member
  simp only [mem_sequence_cons_iff, mem_sequence_nil_iff, mem_optional_iff] at member
  obtain ⟨middle, schema, final, name, rfl⟩ := member
  obtain ⟨read, reads, names⟩ := names_of_mem_choice identifier name
  rcases schema with ⟨one, schema, two, first, three, dot, four, second, rfl⟩ | rfl
  · obtain ⟨before, ending, schemaReads, absent, closes⟩ := exists_of_mem_schema schema
    obtain ⟨gap, gapReads, gapBlank⟩ := mem_run_iff.1 first
    obtain ⟨point, pointReads, same⟩ := mem_word_iff.1 dot
    obtain ⟨blanks, blanksReads, blank⟩ := mem_run_iff.1 second
    rw [sameFolded_singleton (by decide) same] at pointReads
    have noSemicolon {s : Text} (blank : ∀ c ∈ s, isBlank c = true) : ';' ∉ s := fun inside =>
      absurd (blank _ inside) (by decide)
    have all := (schemaReads.trans (gapReads.trans (pointReads.trans blanksReads))).trans reads
    refine ⟨before, (ending ++ (gap ++ (['.'] ++ blanks))) ++ read, ?_, ?_, ?_⟩
    · simpa only [List.append_assoc] using all
    · have whole := @Names.append _ (ending ++ (gap ++ (['.'] ++ blanks))) _ [] names ?_
        List.not_mem_nil
      · rwa [List.append_nil] at whole
      · simp only [List.mem_append, List.mem_singleton]
        rintro (inside | inside | inside | inside)
        · exact absent inside
        · exact noSemicolon gapBlank inside
        · cases inside
        · exact noSemicolon blank inside
    · refine closes.imp_right ?_
      rintro ⟨close, rfl, isClose⟩
      exact ⟨close :: (gap ++ ['.']), ⟨close, gap, rfl, isClose, gapBlank⟩, blanks ++ read,
        by simp only [List.cons_append, List.append_assoc, List.nil_append]⟩
  · exact ⟨[], read, reads, names, Or.inl rfl⟩

/-- A text in which the name of the table, behind that of a schema, cannot be read to its end. -/
def Calm (table s : Text) : Prop :=
  s.getLast? = some ';' ∧ (Lacks (word table) s ∨ Undotted s)

/-- A text that starts with neither a line feed nor a semicolon and is found behind rows stands in
one of them. -/
theorem exists_of_infix_behind {c : Char} {read : Text} (noFeed : c ≠ '\n')
    (absent : ';' ∉ c :: read) (ends : ∀ s, some s ∈ texts → s.getLast? = some ';')
    (inside : c :: read <:+: behind texts) : ∃ s, some s ∈ texts ∧ c :: read <:+: s := by
  induction texts with
  | nil => exact absurd (List.eq_nil_of_infix_nil inside) (List.cons_ne_nil _ _)
  | cons row rest ih =>
      have later (inside : c :: read <:+: behind rest) :
          ∃ s, some s ∈ row :: rest ∧ c :: read <:+: s := by
        obtain ⟨s, member, found⟩ :=
          ih (fun s member => ends s (List.mem_cons_of_mem _ member)) inside
        exact ⟨s, List.mem_cons_of_mem _ member, found⟩
      change c :: read <:+: '\n' :: (row.getD [] ++ behind rest) at inside
      rcases List.infix_cons_iff.1 inside with starts | inside
      · exact absurd (List.cons_prefix_cons.1 starts).1 noFeed
      · cases row with
        | none => exact later inside
        | some s =>
            obtain ⟨front, rfl⟩ := List.getLast?_eq_some_iff.1 (ends s List.mem_cons_self)
            rw [Option.getD_some, List.append_assoc] at inside
            rcases infix_of_append_cons absent inside with here | behind
            · exact ⟨_, List.mem_cons_self, here.trans (List.prefix_append front [';']).isInfix⟩
            · exact later behind

/-- A search that goes through the name of the table finds nothing that starts in a text without
this name. -/
theorem free_qualified (identifier : Identifier table) {lead : List Pattern}
    (omits : Omits ';' (sequence lead)) (more : List Pattern) (ends : s.getLast? = some ';')
    (apart : Lacks (word table) s) (calm : ∀ t, some t ∈ texts → Calm table t) :
    Free (sequence (lead ++ qualified table :: more)) s (behind texts) := by
  intro left rest nonempty suffix
  rw [List.eq_nil_iff_forall_not_mem]
  intro stop found
  rw [sequence_append, List.mem_flatMap] at found
  obtain ⟨middle, leads, found⟩ := found
  obtain ⟨final, name, -⟩ := mem_sequence_cons_iff.1 found
  obtain ⟨begun, begunReads, begunAbsent⟩ := omits _ middle leads
  obtain ⟨before, read, reads, ⟨absent, names⟩, dotted⟩ := exists_of_mem_qualified identifier name
  have whole := (begunReads.trans reads).1
  dsimp only at whole
  have last : rest.getLast? = some ';' := by
    obtain ⟨front, rfl⟩ := suffix
    rwa [List.getLast?_append_of_ne_nil _ nonempty] at ends
  obtain ⟨front, rfl⟩ := List.getLast?_eq_some_iff.1 last
  rw [List.append_assoc, List.singleton_append] at whole
  have lacks {t : Text} (apart : Lacks (word table) t) : ¬ read <:+: t := by
    obtain ⟨name, same, inside⟩ := names
    intro within
    exact (spells_word table).lacks_iff.1 apart name same (inside.trans within)
  have inFront (within : read <:+: front) : False :=
    lacks apart (within.trans ((List.prefix_append front [';']).isInfix.trans suffix.isInfix))
  rcases dotted with rfl | ⟨dotted, isDotted, starts⟩
  · have within : begun ++ read <+: front := by
      refine prefix_of_append_cons (c := ';') (t := behind texts) ?_ ⟨final.rest, ?_⟩
      · exact fun inside => (List.mem_append.1 inside).elim begunAbsent absent
      · rw [whole, List.nil_append]
    exact inFront ((List.suffix_append begun read).isInfix.trans within.isInfix)
  · have within : read <:+: front ++ ';' :: behind texts :=
      ⟨begun ++ before, final.rest, by rw [whole]; simp only [List.append_assoc]⟩
    rcases infix_of_append_cons absent within with here | behind
    · exact inFront here
    · obtain ⟨close, blanks, rfl, closes, -⟩ := id isDotted
      obtain ⟨others, rfl⟩ := starts
      have noFeed : close ≠ '\n' := by rcases closes with rfl | rfl <;> decide
      obtain ⟨t, member, found⟩ :=
        exists_of_infix_behind noFeed absent (fun t member => (calm t member).1) behind
      rcases (calm t member).2 with noName | undotted
      · exact lacks noName found
      · exact undotted _ isDotted ((List.prefix_append _ others).isInfix.trans found)

end Qualified

section Yields

variable {pattern : Pattern} {rest : Text}

/-- A pattern that reads a text and nothing else if another one follows. -/
def Yields (pattern : Pattern) (read rest : Text) : Prop :=
  ∀ left, pattern ⟨left, read ++ rest⟩ = [⟨read.getLast?.or left, rest⟩]

theorem yields_word (w rest : Text) : Yields (word w) w rest := by
  intro left
  have found : Text.afterFolded? w (w ++ rest) = some rest :=
    Text.afterFolded?_eq_some_iff.2 ⟨w, rfl, rfl⟩
  rw [word, found]
  exact congrArg (fun cursor => [cursor]) (Cursor.advance_append left w rest)

/-- A text that starts with a character which is not blank. -/
def Shows (rest : Text) : Prop := rest.head?.any (!isBlank ·) = true

theorem Shows.ahead (shows : Shows rest) (left : Option Char) :
    Cursor.ahead isBlank left rest = [⟨left, rest⟩] := by
  obtain ⟨c, starts, visible⟩ := (Option.any_eq_true _ _).1 shows
  obtain ⟨more, rfl⟩ := List.head?_eq_some_iff.1 starts
  rw [Bool.not_eq_true'] at visible
  rw [Cursor.ahead, visible]
  rfl

theorem yields_someBlanks (shows : Shows rest) : Yields someBlanks [' '] rest := by
  intro left
  change Cursor.within isBlank (some ' ') rest = _
  rw [Cursor.within, shows.ahead]
  rfl

theorem yields_blanks (shows : Shows rest) : Yields blanks [] rest := by
  intro left
  change Cursor.within isBlank left rest = _
  rw [Cursor.within, shows.ahead]
  rfl

end Yields

section Prefers

variable {pattern : Pattern} {patterns : List Pattern} {read rest s t : Text}

/-- A pattern that reads a text in the preferred way if another one follows. -/
def Prefers (pattern : Pattern) (read rest : Text) : Prop :=
  ∀ left, ∃ left' others, pattern ⟨left, read ++ rest⟩ = ⟨left', rest⟩ :: others

theorem Yields.prefers (yields : Yields pattern read rest) : Prefers pattern read rest :=
  fun left => ⟨_, [], yields left⟩

theorem prefers_word (w rest : Text) : Prefers (word w) w rest := (yields_word w rest).prefers

theorem prefers_someBlanks (shows : Shows rest) : Prefers someBlanks [' '] rest :=
  (yields_someBlanks shows).prefers

theorem prefers_blanks_space (shows : Shows rest) : Prefers blanks [' '] rest := by
  intro left
  refine ⟨some ' ', [⟨left, ' ' :: rest⟩], ?_⟩
  change Cursor.within isBlank left (' ' :: rest) = _
  rw [Cursor.within, Cursor.ahead, if_pos (by decide), shows.ahead]
  rfl

theorem prefers_nil (rest : Text) : Prefers (sequence []) [] rest := fun left => ⟨left, [], rfl⟩

theorem Prefers.sequence {more : Text} (first : Prefers pattern read (more ++ rest))
    (later : Prefers (.sequence patterns) more rest) :
    Prefers (.sequence (pattern :: patterns)) (read ++ more) rest := by
  intro left
  obtain ⟨middle, others, found⟩ := first left
  obtain ⟨final, behind, ends⟩ := later middle
  refine ⟨final, behind ++ others.flatMap (Pattern.sequence patterns), ?_⟩
  rw [List.append_assoc]
  change (pattern _).flatMap (Pattern.sequence patterns) = _
  rw [found, List.flatMap_cons, ends, List.cons_append]

theorem Prefers.last (prefers : Prefers pattern read rest) :
    Prefers (.sequence [pattern]) read rest := by
  have whole := Prefers.sequence prefers (prefers_nil rest)
  rwa [List.append_nil] at whole

theorem Prefers.choice (prefers : Prefers pattern read rest) (others : List Pattern) :
    Prefers (.choice (pattern :: others)) read rest := by
  intro left
  obtain ⟨final, more, found⟩ := prefers left
  refine ⟨final, more ++ Pattern.choice others ⟨left, read ++ rest⟩, ?_⟩
  change (pattern :: others).flatMap _ = _
  rw [List.flatMap_cons, found, List.cons_append]
  rfl

theorem Prefers.choice_of_eq_nil (fails : ∀ left, pattern ⟨left, read ++ rest⟩ = [])
    (prefers : Prefers (.choice patterns) read rest) :
    Prefers (.choice (pattern :: patterns)) read rest := by
  intro left
  obtain ⟨final, more, found⟩ := prefers left
  refine ⟨final, more, ?_⟩
  change (pattern :: patterns).flatMap _ = _
  rw [List.flatMap_cons, fails left, List.nil_append]
  exact found

theorem word_cons_of_ne {c d : Char} (differ : foldCase c ≠ foldCase d) (w : Text)
    (left : Option Char) (rest : Text) : word (c :: w) ⟨left, d :: rest⟩ = [] := by
  rw [word, Text.afterFolded?, if_neg differ]
  rfl

theorem sequence_of_eq_nil {cursor : Cursor} (fails : pattern cursor = []) :
    Pattern.sequence (pattern :: patterns) cursor = [] := by
  change (pattern cursor).flatMap (Pattern.sequence patterns) = []
  rw [fails]
  rfl

theorem prefers_phrase (first second : Text) {rest : Text} (shows : Shows (second ++ rest)) :
    Prefers (phrase [first, second]) (first ++ ' ' :: second) rest := by
  have both := (prefers_someBlanks shows).sequence (prefers_word second rest).last
  exact (prefers_word first _).sequence both

end Prefers

section Qualified

variable {table rest : Text}

theorem dropWhile_append_cons {p : Char → Bool} {s t : Text} {c : Char}
    (inside : ∀ d ∈ s, p d = true) (stops : p c = false) : (s ++ c :: t).dropWhile p = c :: t := by
  rw [List.dropWhile_append_of_pos inside, List.dropWhile_cons, if_neg (by rw [stops]; decide)]

/-- What may follow the name of a table: the first character that is not blank is not a dot. -/
def Undot (rest : Text) : Prop :=
  ∃ blanks c more, rest = blanks ++ c :: more ∧ AllBlank blanks ∧ isBlank c = false ∧ c ≠ '.'

theorem Undot.append (undot : Undot rest) (more : Text) : Undot (rest ++ more) := by
  obtain ⟨blanks, c, others, rfl, blank, visible, noDot⟩ := undot
  exact ⟨blanks, c, others ++ more, by rw [List.append_assoc, List.cons_append], blank, visible,
    noDot⟩

/-- Where a quoted name stands that no dot follows, no name of a schema stands before the name. -/
theorem schema_eq_nil (identifier : Identifier table) (undot : Undot rest) (left : Option Char) :
    sequence [choice [sequence [word ['['], someRun (· ≠ ']'), word [']']],
      sequence [word ['"'], someRun (· ≠ '"'), word ['"']], someRun isWord],
      blanks, word ['.'], blanks] ⟨left, '"' :: (table ++ '"' :: rest)⟩ = [] := by
  rw [List.eq_nil_iff_forall_not_mem]
  intro stop found
  simp only [mem_sequence_cons_iff, mem_sequence_nil_iff, mem_choice_iff, List.mem_cons,
    List.not_mem_nil, or_false, exists_eq_or_imp, exists_eq_left] at found
  obtain ⟨one, schema, two, first, three, dot, -⟩ := found
  rcases schema with ⟨middle, opening, -⟩ |
    ⟨middle, opening, further, inner, last, closing, rfl⟩ | bare
  · obtain ⟨read, reads, same⟩ := mem_word_iff.1 opening
    rw [sameFolded_singleton (by decide) same] at reads
    exact absurd (List.cons.inj reads.1).1 (by decide)
  · obtain ⟨read, reads, same⟩ := mem_word_iff.1 opening
    rw [sameFolded_singleton (by decide) same] at reads
    obtain ⟨name, nameReads, -, inside⟩ := mem_someRun_iff.1 inner
    obtain ⟨quote, quoteReads, sameQuote⟩ := mem_word_iff.1 closing
    rw [sameFolded_singleton (by decide) sameQuote] at quoteReads
    obtain ⟨gap, gapReads, gapBlank⟩ := mem_run_iff.1 first
    obtain ⟨point, pointReads, samePoint⟩ := mem_word_iff.1 dot
    rw [sameFolded_singleton (by decide) samePoint] at pointReads
    have behindQuote : table ++ '"' :: rest = name ++ '"' :: one.rest := by
      rw [(List.cons.inj reads.1).2]
      exact nameReads.1.trans (congrArg (name ++ ·) quoteReads.1)
    have noQuote : ∀ d ∈ table, decide (d ≠ '"') = true := fun d member =>
      decide_eq_true fun same => identifier.not_mem (by decide) (same ▸ member)
    have behindName := congrArg (List.dropWhile fun d => decide (d ≠ '"')) behindQuote
    rw [dropWhile_append_cons noQuote rfl, dropWhile_append_cons inside rfl] at behindName
    obtain ⟨blanks, c, more, rfl, blank, visible, noDot⟩ := undot
    have dotted : blanks ++ c :: more = gap ++ '.' :: three.rest :=
      (List.cons.inj behindName).2.trans
        (gapReads.1.trans (congrArg (gap ++ ·) pointReads.1))
    have behindBlanks := congrArg (List.dropWhile isBlank) dotted
    rw [dropWhile_append_cons blank visible, dropWhile_append_cons gapBlank (by decide)]
      at behindBlanks
    exact noDot (List.cons.inj behindBlanks).1
  · obtain ⟨read, reads, nonempty, word⟩ := mem_someRun_iff.1 bare
    obtain ⟨c, more, rfl⟩ := List.exists_cons_of_ne_nil nonempty
    rw [← (List.cons.inj reads.1).1] at word
    exact absurd (word _ List.mem_cons_self) (by decide)

theorem prefers_qualified (identifier : Identifier table) (undot : Undot rest) :
    Prefers (qualified table) ('"' :: (table ++ ['"'])) rest := by
  have split : '"' :: (table ++ ['"']) ++ rest = '"' :: (table ++ '"' :: rest) := by
    rw [List.cons_append, List.append_assoc]
    rfl
  have quoted :
      Prefers (sequence [word ['"'], word table, word ['"']]) ('"' :: (table ++ ['"'])) rest :=
    (prefers_word ['"'] _).sequence ((prefers_word table _).sequence (prefers_word ['"'] rest).last)
  have fails (left : Option Char) (rest : Text) :
      sequence [word ['['], word table, word [']']] ⟨left, '"' :: rest⟩ = [] :=
    sequence_of_eq_nil (word_cons_of_ne (by decide) _ _ _)
  have name := Prefers.choice_of_eq_nil (fun left => fails left _)
    (quoted.choice [sequence [boundary, word table, boundary]])
  have noSchema := Prefers.choice_of_eq_nil (fun left => (by
    rw [List.nil_append, split]
    exact schema_eq_nil identifier undot left))
    ((prefers_nil ('"' :: (table ++ ['"']) ++ rest)).choice [])
  exact noSchema.sequence name.last

/-- The creation of the history table is read up to its columns. -/
theorem prefers_createTable (identifier : Identifier table) (rest : Text) :
    Prefers (createTable table)
      ("CREATE TABLE IF NOT EXISTS ".toList ++ ('"' :: (table ++ ['"', ' ', '(']))) rest := by
  have undot : Undot ([' ', '('] ++ rest) :=
    ⟨[' '], '(', rest, rfl, Text.allBlank_singleton (by decide), by decide, by decide⟩
  have opening : Prefers (sequence [blanks, word ['(']]) [' ', '('] rest :=
    (prefers_blanks_space (by rfl)).sequence (prefers_word ['('] rest).last
  have named := (prefers_qualified identifier undot).sequence opening
  have condition : Prefers (phrase ["IF".toList, "NOT".toList, "EXISTS".toList])
      ("IF".toList ++ ([' '] ++ ("NOT".toList ++ ' ' :: "EXISTS".toList)))
      ([' '] ++ ('"' :: (table ++ ['"']) ++ [' ', '('] ++ rest)) :=
    (prefers_word "IF".toList _).sequence
      ((prefers_someBlanks (by rfl)).sequence (prefers_phrase "NOT".toList "EXISTS".toList (by rfl)).last)
  have guard := Prefers.sequence condition (prefers_someBlanks (by rfl)).last
  have verb := (prefers_phrase "CREATE".toList "TABLE".toList (by rfl)).sequence
    ((prefers_someBlanks (by rfl)).sequence ((guard.choice [sequence []]).sequence named))
  have words : ("CREATE".toList ++ ' ' :: "TABLE".toList) ++ ([' '] ++ (("IF".toList ++ ([' '] ++
      ("NOT".toList ++ ' ' :: "EXISTS".toList))) ++ [' '])) =
      "CREATE TABLE IF NOT EXISTS ".toList := by decide
  have regroup (a b c d : Text) : a ++ (b ++ (c ++ d)) = a ++ (b ++ c) ++ d := by
    simp only [List.append_assoc]
  rw [regroup, words, List.cons_append, List.append_assoc] at verb
  exact verb

/-- What is done with a record is read up to the name of the table. -/
theorem prefers_historyRows (identifier : Identifier table) (record : Record)
    (undot : Undot rest) :
    Prefers (historyRows table) (record.verb.1 ++ ' ' :: record.verb.2 ++
      ([' '] ++ '"' :: (table ++ ['"']))) rest := by
  have blank : Prefers someBlanks [' '] ('"' :: (table ++ ['"']) ++ rest) :=
    prefers_someBlanks (by rfl)
  have named := blank.sequence (prefers_qualified identifier undot).last
  cases record with
  | insertion =>
      have verb : Prefers (phrase ["INSERT".toList, "INTO".toList]) _
          ([' '] ++ '"' :: (table ++ ['"']) ++ rest) :=
        prefers_phrase "INSERT".toList "INTO".toList (by rfl)
      exact (verb.choice [phrase ["DELETE".toList, "FROM".toList]]).sequence named
  | deletion =>
      have verb : Prefers (phrase ["DELETE".toList, "FROM".toList]) _
          ([' '] ++ '"' :: (table ++ ['"']) ++ rest) :=
        prefers_phrase "DELETE".toList "FROM".toList (by rfl)
      have fails (left : Option Char) (rest : Text) :
          phrase ["INSERT".toList, "INTO".toList] ⟨left, 'D' :: rest⟩ = [] :=
        sequence_of_eq_nil (word_cons_of_ne (by decide : foldCase 'I' ≠ _) "NSERT".toList left rest)
      exact (Prefers.choice_of_eq_nil (fun left => fails left _) (verb.choice [])).sequence named

end Qualified

section Found

variable {pattern : Pattern} {read more s t : Text}

theorem Prefers.length? (prefers : Prefers pattern read t) (left : Option Char) :
    pattern.length? ⟨left, read ++ t⟩ = some read.length := by
  obtain ⟨left', others, found⟩ := prefers left
  change Option.map (fun stop => (read ++ t).length - stop.rest.length)
    (pattern ⟨left, read ++ t⟩).head? = _
  rw [found, List.head?_cons, Option.map_some, List.length_append, Nat.add_sub_cancel]

theorem Free.length? (free : Free pattern s t) {left : Option Char} {rest : Text}
    (nonempty : rest ≠ []) (suffix : rest <:+ s) : pattern.length? ⟨left, rest ++ t⟩ = none := by
  change Option.map _ (pattern ⟨left, rest ++ t⟩).head? = none
  rw [free left rest nonempty suffix]
  rfl

theorem finds_occurrences (prefers : Prefers pattern s t) (nonempty : s ≠ []) :
    Finds (fun cursor => (pattern.length? cursor).map fun length => ⟨length, length⟩) s t := by
  refine ⟨nonempty, fun left => ?_⟩
  dsimp only
  rw [prefers.length? left]
  rfl

/-- A statement is found from what is read at its start to its end. -/
theorem finds_statements (prefers : Prefers pattern read (more ++ t))
    (ends : Ends 0 none (read ++ more)) (nonempty : read ≠ []) :
    Finds (fun cursor => (pattern.length? cursor).map fun length =>
      let whole := statementLength 0 none cursor.rest
      ⟨whole, max whole length⟩) (read ++ more) t := by
  refine ⟨List.append_ne_nil_of_left_ne_nil nonempty more, fun left => ?_⟩
  have length := prefers.length? left
  rw [← List.append_assoc] at length
  dsimp only
  rw [length, Option.map_some, ends,
    Nat.max_eq_left (by rw [List.length_append]; exact Nat.le_add_right _ _)]

theorem skips_occurrences (free : Free pattern s t) :
    Skips (fun cursor => (pattern.length? cursor).map fun length => ⟨length, length⟩) s t := by
  intro left rest nonempty suffix
  dsimp only
  rw [free.length? nonempty suffix, Option.map_none]

theorem skips_statements (free : Free pattern s t) :
    Skips (fun cursor => (pattern.length? cursor).map fun length =>
      let whole := statementLength 0 none cursor.rest
      ⟨whole, max whole length⟩) s t := by
  intro left rest nonempty suffix
  dsimp only
  rw [free.length? nonempty suffix, Option.map_none]

end Found

end MigrationSquash.Script
