import MigrationSquash.Proofs.Script.Searches

/-!
# Names of tables

A statement names its table bare, in brackets or in quotes, perhaps behind the name of a schema.
Main statements: a search for the history table reads a beginning of such a name exactly if a part
of the name shows the history table before the first character that can close the part, and only
behind the name of the history table itself the rest of the statement follows.
-/

set_option autoImplicit false

namespace MigrationSquash.Script

open Pattern
open Text (AllBlank SameFolded foldCase isBlank isWord)

/-- How a part of a name is written. -/
inductive Quoting where
  | bare
  | brackets
  | quotes
  deriving DecidableEq, Repr

/-- The characters around a part of a name. -/
def Quoting.marks? : Quoting → Option (Char × Char)
  | bare => none
  | brackets => some ('[', ']')
  | quotes => some ('"', '"')

/-- A text with each closing character in it doubled. -/
def escape (close : Char) (s : Text) : Text :=
  s.flatMap fun c => if c = close then [c, c] else [c]

/-- The name of a schema or a table and how it is written. -/
structure Part where
  quoting : Quoting
  name : Text
  nonempty : name ≠ []
  word : quoting = .bare → ∀ c ∈ name, isWord c = true

namespace Part

variable (part : Part)

def text : Text :=
  match part.quoting.marks? with
  | none => part.name
  | some (first, last) => first :: (escape last part.name ++ [last])

/-- The name up to the first character that looks as if it closed the name. -/
def shown : Text :=
  match part.quoting.marks? with
  | none => part.name
  | some (_, last) => part.name.takeWhile (· ≠ last)

/-- A name without the character that would close it. -/
def Plain : Prop := ∀ marks ∈ part.quoting.marks?, marks.2 ∉ part.name

instance : Decidable part.Plain :=
  inferInstanceAs (Decidable (∀ marks ∈ part.quoting.marks?, marks.2 ∉ part.name))

/-- A name that looks like the one of the history table up to its first closing character. -/
def Shows (table : Text) : Prop := SameFolded part.shown table

instance (table : Text) : Decidable (part.Shows table) :=
  inferInstanceAs (Decidable (SameFolded _ _))

end Part

/-- The name of a table, perhaps behind that of its schema. -/
structure TableName where
  schema : Option Part
  table : Part

namespace TableName

def text (name : TableName) : Text :=
  match name.schema with
  | none => name.table.text
  | some schema => schema.text ++ '.' :: name.table.text

/-- A name that is taken for the one of the history table: its first part shows that name, or its
second part does and the first one holds no closing character. -/
def Mistakable (table : Text) (name : TableName) : Prop :=
  match name.schema with
  | none => name.table.Shows table
  | some schema => schema.Shows table ∨ schema.Plain ∧ name.table.Shows table

instance (table : Text) (name : TableName) : Decidable (name.Mistakable table) := by
  unfold Mistakable
  split <;> infer_instance

end TableName

section Split

variable {p : Char → Bool} {s s' t t' : Text} {c c' : Char}

/-- Texts that are cut where a property ends are cut in one way only. -/
theorem cut_unique (inside : ∀ d ∈ s, p d = true) (stops : p c = false)
    (inside' : ∀ d ∈ s', p d = true) (stops' : p c' = false)
    (same : s ++ c :: t = s' ++ c' :: t') : s = s' ∧ c = c' ∧ t = t' := by
  have behind := congrArg (List.dropWhile p) same
  rw [dropWhile_append_cons inside stops, dropWhile_append_cons inside' stops'] at behind
  obtain ⟨rfl, rfl⟩ := List.cons.inj behind
  exact ⟨List.append_cancel_right same, rfl, rfl⟩

theorem ne_of_not_mem (absent : c ∉ s) : ∀ d ∈ s, decide (d ≠ c) = true := by
  intro d member
  rw [decide_eq_true_iff]
  rintro rfl
  exact absent member

end Split

section Enclosed

variable {first last : Char} {shown after : Text} {inside : Pattern} {form : Text → Prop}
  {stop : Cursor}

/-- Behind the first closing character of a written name follows the rest, or one more of them. -/
theorem exists_escape_append (last : Char) (name rest : Text) :
    ∃ after, escape last name ++ last :: rest = name.takeWhile (· ≠ last) ++ last :: after ∧
      (last ∉ name ∧ name.takeWhile (· ≠ last) = name ∧ after = rest ∨
        last ∈ name ∧ ∃ more, after = last :: more) := by
  induction name with
  | nil => exact ⟨rest, rfl, Or.inl ⟨List.not_mem_nil, rfl, rfl⟩⟩
  | cons c tail ih =>
      by_cases close : c = last
      · subst close
        exact ⟨c :: (escape c tail ++ c :: rest), by simp [escape], Or.inr ⟨by simp, _, rfl⟩⟩
      · obtain ⟨after, split, cases⟩ := ih
        refine ⟨after, ?_, ?_⟩
        · simp only [escape, List.flatMap_cons] at split ⊢
          simp [close, split]
        · simpa [close, Ne.symm close] using cases

/-- What is read between two characters of which the second one closes. -/
theorem mem_enclosed_iff (spells : Spells inside form) (avoids : ∀ read, form read → last ∉ read)
    (firstApart : isWord first = false) (lastApart : isWord last = false) (absent : last ∉ shown)
    (left : Option Char) :
    stop ∈ sequence [word [first], inside, word [last]] ⟨left, first :: (shown ++ last :: after)⟩ ↔
      form shown ∧ stop = ⟨some last, after⟩ := by
  simp only [mem_sequence_cons_iff, mem_sequence_nil_iff]
  constructor
  · rintro ⟨one, opening, two, inner, three, closing, rfl⟩
    obtain ⟨before, beforeReads, same⟩ := mem_word_iff.1 opening
    obtain ⟨read, reads, formed⟩ := (spells _ _).1 inner
    obtain ⟨behind, behindReads, sameBehind⟩ := mem_word_iff.1 closing
    rw [sameFolded_singleton firstApart same] at beforeReads
    rw [sameFolded_singleton lastApart sameBehind] at behindReads
    have split : shown ++ last :: after = one.rest := (List.cons.inj beforeReads.1).2
    have whole : shown ++ last :: after = read ++ last :: stop.rest := by
      rw [split, reads.1, behindReads.1]
      rfl
    obtain ⟨rfl, -, rfl⟩ := cut_unique (ne_of_not_mem absent) (by simp)
      (ne_of_not_mem (avoids read formed)) (by simp) whole
    exact ⟨formed, behindReads.eq_mk⟩
  · rintro ⟨formed, rfl⟩
    refine ⟨⟨some first, shown ++ last :: after⟩, ?_,
      ⟨shown.getLast?.or (some first), last :: after⟩, ?_, ⟨some last, after⟩, ?_, rfl⟩
    · exact mem_word_iff.2 ⟨[first], ⟨rfl, rfl⟩, rfl⟩
    · exact (spells _ _).2 ⟨shown, Cursor.reads_append _ _ _, formed⟩
    · exact mem_word_iff.2 ⟨[last], ⟨rfl, rfl⟩, rfl⟩

/-- Nothing enclosed is read where another character stands. -/
theorem enclosed_eq_nil {c : Char} (apart : isWord first = false) (other : c ≠ first)
    (left : Option Char) (rest : Text) :
    sequence [word [first], inside, word [last]] ⟨left, c :: rest⟩ = [] :=
  sequence_of_eq_nil (word_cons_of_ne
    (fun same => other (Text.eq_of_foldCase_eq apart same.symm)) [] left rest)

theorem spells_someRun (inside : Char → Bool) :
    Spells (someRun inside) fun read => read ≠ [] ∧ ∀ c ∈ read, inside c = true :=
  fun _ _ => mem_someRun_iff

end Enclosed

section Parts

variable {table rest after : Text} {stop : Cursor} {left : Option Char} {part : Part}

/-- A text that does not go on with a word. -/
def Apart (rest : Text) : Prop := ∀ c ∈ rest.head?, isWord c = false

theorem apart_iff {rest : Text} : Apart rest ↔ rest.head?.all (!isWord ·) = true := by
  cases rest <;> simp [Apart]

instance (rest : Text) : Decidable (Apart rest) := decidable_of_iff _ apart_iff.symm

/-- Ways to read a part of a name: between brackets or quotes, or bare. -/
def parts (inside : Char → Pattern) (bare : Pattern) : Pattern :=
  choice [sequence [word ['['], inside ']', word [']']],
    sequence [word ['"'], inside '"', word ['"']], bare]

/-- What a search reads of the name of the history table. -/
def historyName (table : Text) : Pattern :=
  parts (fun _ => word table) (sequence [boundary, word table, boundary])

/-- What a search reads of the name of a schema. -/
def schemaName : Pattern := parts (fun last => someRun (· ≠ last)) (someRun isWord)

theorem qualified_eq (table : Text) :
    qualified table = sequence
      [.optional (sequence [schemaName, blanks, word ['.'], blanks]), historyName table] := rfl

theorem Part.text_of_bare (bare : part.quoting = .bare) : part.text = part.name := by
  simp [text, bare, Quoting.marks?]

theorem Part.shown_of_bare (bare : part.quoting = .bare) : part.shown = part.name := by
  simp [shown, bare, Quoting.marks?]

theorem Part.plain_of_bare (bare : part.quoting = .bare) : part.Plain := by
  simp [Plain, bare, Quoting.marks?]

/-- A part between two characters, up to the first one that could close it. -/
theorem Part.exists_text_append {first last : Char}
    (marks : part.quoting.marks? = some (first, last)) (rest : Text) :
    ∃ after, part.text ++ rest = first :: (part.shown ++ last :: after) ∧ last ∉ part.shown ∧
      (part.Plain ∧ part.shown = part.name ∧ after = rest ∨
        ¬ part.Plain ∧ ∃ more, after = last :: more) := by
  obtain ⟨after, split, cases⟩ := exists_escape_append last part.name rest
  refine ⟨after, ?_, ?_, ?_⟩
  · simp [text, shown, marks, split]
  · simp only [shown, marks]
    intro member
    simpa using List.mem_takeWhile_imp member
  · simpa [Plain, shown, marks] using cases

/-- A part that is not bare stands between brackets or quotes. -/
theorem Part.marks_cases (part : Part) :
    part.quoting = .bare ∨ part.quoting.marks? = some ('[', ']') ∨
      part.quoting.marks? = some ('"', '"') := by
  cases quoting : part.quoting <;> simp [Quoting.marks?]

theorem Part.exists_text_cons (part : Part) :
    ∃ c more, part.text = c :: more ∧ isBlank c = false := by
  rcases part.marks_cases with bare | marks | marks
  · obtain ⟨c, more, split⟩ := List.exists_cons_of_ne_nil part.nonempty
    refine ⟨c, more, by rw [text_of_bare bare, split], ?_⟩
    exact Text.isBlank_eq_false_of_isWord (part.word bare c (by simp [split]))
  · exact ⟨'[', escape ']' part.name ++ [']'], by simp [text, marks], by decide⟩
  · exact ⟨'"', escape '"' part.name ++ ['"'], by simp [text, marks], by decide⟩

section Alternatives

variable {inside : Char → Pattern} {bare : Pattern} (form : Char → Text → Prop)
variable (spells : ∀ last, Spells (inside last) (form last))
variable (avoids : ∀ last, isWord last = false → ∀ read, form last read → last ∉ read)
variable (opens : ∀ left c rest, isWord c = false → bare ⟨left, c :: rest⟩ = [])
include spells avoids opens

theorem mem_parts_iff {first last : Char} (marks : part.quoting.marks? = some (first, last))
    (split : part.text ++ rest = first :: (part.shown ++ last :: after))
    (absent : last ∉ part.shown) :
    stop ∈ parts inside bare ⟨left, part.text ++ rest⟩ ↔
      form last part.shown ∧ stop = ⟨some last, after⟩ := by
  have enclosed (firstApart : isWord first = false) (lastApart : isWord last = false) :
      stop ∈ sequence [word [first], inside last, word [last]]
          ⟨left, first :: (part.shown ++ last :: after)⟩ ↔
        form last part.shown ∧ stop = ⟨some last, after⟩ :=
    mem_enclosed_iff (spells last) (avoids last lastApart) firstApart lastApart absent left
  rw [split]
  simp only [parts, mem_choice_iff, List.mem_cons, List.not_mem_nil, or_false, exists_eq_or_imp,
    exists_eq_left]
  rcases part.marks_cases with isBare | same | same
  · rw [isBare] at marks
    cases marks
  · rw [same] at marks
    cases marks
    rw [enclosed (by decide) (by decide), enclosed_eq_nil (by decide) (by decide),
      opens left '[' _ (by decide)]
    simp
  · rw [same] at marks
    cases marks
    rw [enclosed (by decide) (by decide), enclosed_eq_nil (by decide) (by decide),
      opens left '"' _ (by decide)]
    simp

omit form spells avoids opens in
theorem mem_parts_bare_iff (isBare : part.quoting = .bare) :
    stop ∈ parts inside bare ⟨left, part.text ++ rest⟩ ↔ stop ∈ bare ⟨left, part.name ++ rest⟩ := by
  obtain ⟨c, more, split⟩ := List.exists_cons_of_ne_nil part.nonempty
  have word := part.word isBare c (by simp [split])
  have noBracket : c ≠ '[' := by
    rintro rfl
    exact absurd word (by decide)
  have noQuote : c ≠ '"' := by
    rintro rfl
    exact absurd word (by decide)
  rw [Part.text_of_bare isBare, split, List.cons_append]
  simp only [parts, mem_choice_iff, List.mem_cons, List.not_mem_nil, or_false, exists_eq_or_imp,
    exists_eq_left]
  rw [enclosed_eq_nil (by decide) noBracket, enclosed_eq_nil (by decide) noQuote]
  simp

end Alternatives

/-- Words that no other word follows are the same if what starts with them is. -/
theorem word_unique {s t more : Text} (inside : ∀ c ∈ s, isWord c = true) (apart : Apart more)
    (inside' : ∀ c ∈ t, isWord c = true) (apart' : Apart rest)
    (same : s ++ more = t ++ rest) : s = t ∧ more = rest := by
  have runs {s more : Text} (inside : ∀ c ∈ s, isWord c = true) (apart : Apart more) :
      (s ++ more).takeWhile isWord = s := by
    rw [List.takeWhile_append_of_pos inside]
    cases more with
    | nil => simp
    | cons c others => simp [apart c rfl]
  have whole := congrArg (List.takeWhile isWord) same
  rw [runs inside apart, runs inside' apart'] at whole
  subst whole
  exact ⟨rfl, List.append_cancel_left same⟩

end Parts

section Reading

variable {table rest next : Text} {stop : Cursor} {left : Option Char} {part : Part}

theorem Identifier.closing_not_mem (identifier : Identifier table) {last : Char}
    (apart : isWord last = false) {read : Text} (same : SameFolded read table) : last ∉ read := by
  intro member
  rw [isWord_of_sameFolded same identifier.word last member] at apart
  cases apart

/-- The bare name of the history table is read where a word is this name. -/
theorem mem_bounded_iff (identifier : Identifier table) {name : Text} (nonempty : name ≠ [])
    (inside : ∀ c ∈ name, isWord c = true) (apart : Apart rest)
    (leftApart : left.any isWord = false) :
    stop ∈ sequence [boundary, word table, boundary] ⟨left, name ++ rest⟩ ↔
      SameFolded name table ∧ stop = ⟨name.getLast?.or left, rest⟩ := by
  have last {read : Text} (nonempty : read ≠ []) (inside : ∀ c ∈ read, isWord c = true) :
      (read.getLast?.or left).any isWord = true := by
    rw [List.getLast?_eq_some_getLast nonempty]
    exact inside _ (List.getLast_mem nonempty)
  simp only [mem_sequence_cons_iff, mem_sequence_nil_iff, mem_boundary_iff]
  constructor
  · rintro ⟨one, ⟨rfl, -⟩, two, name, three, ⟨rfl, ends⟩, rfl⟩
    obtain ⟨read, reads, same⟩ := mem_word_iff.1 name
    have words := isWord_of_sameFolded same identifier.word
    have shown : read ≠ [] := by
      rintro rfl
      exact identifier.nonempty (List.eq_nil_of_length_eq_zero same.length_eq.symm)
    have behind : Apart stop.rest := by
      rw [Text.isWordBoundary, reads.2, last shown words] at ends
      intro c first
      rw [Option.mem_def.1 first] at ends
      simpa using ends
    obtain ⟨rfl, split⟩ := word_unique inside apart words behind reads.1
    rw [reads.eq_mk, ← split]
    exact ⟨same, rfl⟩
  · rintro ⟨same, rfl⟩
    refine ⟨_, ⟨rfl, ?_⟩, _, mem_word_iff.2 ⟨name, Cursor.reads_append left name rest, same⟩, _,
      ⟨rfl, ?_⟩, rfl⟩
    · obtain ⟨c, more, rfl⟩ := List.exists_cons_of_ne_nil nonempty
      rw [Text.isWordBoundary, leftApart]
      simpa using inside c List.mem_cons_self
    · dsimp only
      rw [Text.isWordBoundary, last nonempty inside]
      cases rest with
      | nil => rfl
      | cons c more => simp [apart c rfl]

theorem bounded_eq_nil (identifier : Identifier table) {c : Char} (apart : isWord c = false) :
    sequence [boundary, word table, boundary] ⟨left, c :: rest⟩ = [] := by
  obtain ⟨d, more, rfl⟩ := List.exists_cons_of_ne_nil identifier.nonempty
  have differ : foldCase d ≠ foldCase c := by
    intro same
    have word := identifier.word d List.mem_cons_self
    rw [Text.isWord_eq_of_foldCase_eq same, apart] at word
    cases word
  rw [List.eq_nil_iff_forall_not_mem]
  intro stop found
  simp only [mem_sequence_cons_iff, mem_boundary_iff] at found
  obtain ⟨one, ⟨rfl, -⟩, two, name, -⟩ := found
  rw [word_cons_of_ne differ] at name
  cases name

/-- A character that can close a part of a name. -/
def IsClose (c : Char) : Prop := c = ']' ∨ c = '"'

namespace Part

theorem isClose {first last : Char} (marks : part.quoting.marks? = some (first, last)) :
    IsClose last := by
  rcases part.marks_cases with bare | same | same
  · rw [bare] at marks
    cases marks
  · rw [same] at marks
    cases marks
    exact Or.inl rfl
  · rw [same] at marks
    cases marks
    exact Or.inr rfl

theorem exists_marks (enclosed : part.quoting ≠ .bare) :
    ∃ first last, part.quoting.marks? = some (first, last) := by
  rcases part.marks_cases with bare | same | same
  · exact absurd bare enclosed
  · exact ⟨_, _, same⟩
  · exact ⟨_, _, same⟩

variable {first last : Char} {after : Text}

theorem mem_historyName_iff (identifier : Identifier table)
    (marks : part.quoting.marks? = some (first, last))
    (split : part.text ++ rest = first :: (part.shown ++ last :: after))
    (absent : last ∉ part.shown) :
    stop ∈ historyName table ⟨left, part.text ++ rest⟩ ↔
      part.Shows table ∧ stop = ⟨some last, after⟩ :=
  mem_parts_iff (fun _ read => SameFolded read table) (fun _ => spells_word table)
    (fun _ apart _ same => identifier.closing_not_mem apart same)
    (fun _ _ _ apart => bounded_eq_nil identifier apart) marks split absent

theorem mem_schemaName_iff (marks : part.quoting.marks? = some (first, last))
    (split : part.text ++ rest = first :: (part.shown ++ last :: after))
    (absent : last ∉ part.shown) :
    stop ∈ schemaName ⟨left, part.text ++ rest⟩ ↔
      part.shown ≠ [] ∧ stop = ⟨some last, after⟩ := by
  refine (mem_parts_iff _ (fun last => spells_someRun (· ≠ last)) ?_ ?_ marks split absent).trans ?_
  · rintro last - read ⟨-, inside⟩ member
    simpa using inside last member
  · intro left c rest apart
    simp [someRun, apart]
  · rw [and_assoc]
    refine and_congr_right fun _ => and_iff_right ?_
    exact ne_of_not_mem absent

/-- A part in which the name of the history table is read shows this name, and behind what is read
of another name stands a closing character. -/
theorem of_mem_historyName (identifier : Identifier table) (apart : Apart rest)
    (leftApart : left.any isWord = false)
    (found : stop ∈ historyName table ⟨left, part.text ++ rest⟩) :
    part.Shows table ∧ (SameFolded part.name table ∧ stop.rest = rest ∨
      ∃ c more, stop.rest = c :: more ∧ IsClose c) := by
  by_cases bare : part.quoting = .bare
  · rw [historyName, mem_parts_bare_iff bare,
      mem_bounded_iff identifier part.nonempty (part.word bare) apart leftApart] at found
    obtain ⟨same, rfl⟩ := found
    exact ⟨by rwa [Shows, shown_of_bare bare], Or.inl ⟨same, rfl⟩⟩
  · obtain ⟨first, last, marks⟩ := part.exists_marks bare
    obtain ⟨after, split, absent, cases⟩ := part.exists_text_append marks rest
    obtain ⟨shows, rfl⟩ := (mem_historyName_iff identifier marks split absent).1 found
    refine ⟨shows, ?_⟩
    rcases cases with ⟨-, whole, rfl⟩ | ⟨-, more, rfl⟩
    · exact Or.inl ⟨whole ▸ shows, rfl⟩
    · exact Or.inr ⟨last, more, rfl, isClose marks⟩

theorem exists_mem_historyName (identifier : Identifier table) (apart : Apart rest)
    (leftApart : left.any isWord = false) (shows : part.Shows table) :
    ∃ stop, stop ∈ historyName table ⟨left, part.text ++ rest⟩ := by
  by_cases bare : part.quoting = .bare
  · refine ⟨_, (mem_parts_bare_iff bare).2 ((mem_bounded_iff identifier part.nonempty
      (part.word bare) apart leftApart).2 ⟨?_, rfl⟩)⟩
    rwa [Shows, shown_of_bare bare] at shows
  · obtain ⟨first, last, marks⟩ := part.exists_marks bare
    obtain ⟨after, split, absent, -⟩ := part.exists_text_append marks rest
    exact ⟨_, (mem_historyName_iff identifier marks split absent).2 ⟨shows, rfl⟩⟩

theorem of_mem_schemaName (apart : Apart rest) (behind : Apart stop.rest)
    (found : stop ∈ schemaName ⟨left, part.text ++ rest⟩) :
    part.Plain ∧ stop.rest = rest ∨ ∃ c more, stop.rest = c :: more ∧ IsClose c := by
  by_cases bare : part.quoting = .bare
  · rw [schemaName, mem_parts_bare_iff bare] at found
    obtain ⟨read, reads, -, inside⟩ := mem_someRun_iff.1 found
    obtain ⟨-, same⟩ := word_unique (part.word bare) apart inside behind reads.1
    exact Or.inl ⟨plain_of_bare bare, same.symm⟩
  · obtain ⟨first, last, marks⟩ := part.exists_marks bare
    obtain ⟨after, split, absent, cases⟩ := part.exists_text_append marks rest
    obtain ⟨-, rfl⟩ := (mem_schemaName_iff marks split absent).1 found
    rcases cases with ⟨plain, -, rfl⟩ | ⟨-, more, rfl⟩
    · exact Or.inl ⟨plain, rfl⟩
    · exact Or.inr ⟨last, more, rfl, isClose marks⟩

theorem exists_mem_schemaName (plain : part.Plain) :
    ∃ stop ∈ schemaName ⟨left, part.text ++ rest⟩, stop.rest = rest := by
  by_cases bare : part.quoting = .bare
  · refine ⟨⟨part.name.getLast?.or left, rest⟩, (mem_parts_bare_iff bare).2 (mem_someRun_iff.2
      ⟨part.name, Cursor.reads_append left part.name rest, part.nonempty, part.word bare⟩), rfl⟩
  · obtain ⟨first, last, marks⟩ := part.exists_marks bare
    obtain ⟨after, split, absent, cases⟩ := part.exists_text_append marks rest
    rcases cases with ⟨-, whole, rfl⟩ | ⟨other, -⟩
    · refine ⟨_, (mem_schemaName_iff marks split absent).2 ⟨?_, rfl⟩, rfl⟩
      rw [whole]
      exact part.nonempty
    · exact absurd plain other

/-- The name of a schema is read up to a dot behind it, if there is one. -/
theorem of_mem_dotted (apart : Apart rest)
    (found :
      stop ∈ sequence [schemaName, blanks, Pattern.word ['.'], blanks] ⟨left, part.text ++ rest⟩) :
    part.Plain ∧ ∃ gap gap', rest = gap ++ '.' :: (gap' ++ stop.rest) ∧ AllBlank gap ∧
      AllBlank gap' ∧ stop.left = gap'.getLast?.or (some '.') := by
  simp only [mem_sequence_cons_iff, mem_sequence_nil_iff] at found
  obtain ⟨one, schema, two, before, three, dot, four, behind, rfl⟩ := found
  obtain ⟨gap, gapReads, gapBlank⟩ := mem_run_iff.1 before
  obtain ⟨point, pointReads, same⟩ := mem_word_iff.1 dot
  obtain ⟨gap', gapReads', gapBlank'⟩ := mem_run_iff.1 behind
  rw [sameFolded_singleton (by decide) same] at pointReads
  have dotted : one.rest = gap ++ '.' :: (gap' ++ stop.rest) := by
    rw [gapReads.1, pointReads.1, gapReads'.1]
    rfl
  have first : ∀ c ∈ one.rest.head?, isBlank c = true ∨ c = '.' := by
    rw [dotted]
    cases gap with
    | nil => simp
    | cons c more => simpa using Or.inl (gapBlank c List.mem_cons_self)
  have oneApart : Apart one.rest := by
    intro c starts
    rcases first c starts with blank | rfl
    · exact Text.isWord_of_isBlank blank
    · decide
  have left' : stop.left = gap'.getLast?.or (some '.') := by
    rw [gapReads'.2, pointReads.2]
    rfl
  rcases part.of_mem_schemaName apart oneApart schema with ⟨plain, rfl⟩ | ⟨c, more, split, close⟩
  · exact ⟨plain, gap, gap', dotted, gapBlank, gapBlank', left'⟩
  · exfalso
    rcases first c (by simp [split]) with blank | rfl
    · rcases close with rfl | rfl <;> exact absurd blank (by decide)
    · simp [IsClose] at close

theorem exists_mem_dotted (plain : part.Plain) (next : Text) :
    ⟨some '.', next⟩ ∈ sequence [schemaName, blanks, Pattern.word ['.'], blanks]
      ⟨left, part.text ++ '.' :: next⟩ := by
  obtain ⟨one, schema, behind⟩ :
      ∃ one ∈ schemaName ⟨left, part.text ++ '.' :: next⟩, one.rest = '.' :: next :=
    part.exists_mem_schemaName plain
  simp only [mem_sequence_cons_iff, mem_sequence_nil_iff]
  exact ⟨one, schema, one, mem_run_iff.2 ⟨[], Cursor.Reads.refl one, nofun⟩, ⟨some '.', next⟩,
    mem_word_iff.2 ⟨['.'], ⟨behind, rfl⟩, rfl⟩, _,
    mem_run_iff.2 ⟨[], Cursor.Reads.refl _, nofun⟩, rfl⟩

end Part

end Reading

namespace TableName

variable {table rest : Text} {stop : Cursor} {left : Option Char} {name : TableName}

/-- What may follow the name of a table: no word, and behind blanks no dot. -/
structure Follows (rest : Text) : Prop where
  apart : Apart rest
  undot : Undot rest

theorem text_of_none (none : name.schema = none) : name.text = name.table.text := by
  simp [text, none]

theorem text_of_some {schema : Part} (some : name.schema = some schema) (rest : Text) :
    name.text ++ rest = schema.text ++ '.' :: (name.table.text ++ rest) := by
  simp [text, some]

theorem apart_dot (rest : Text) : Apart ('.' :: rest) := by
  simp only [Apart, List.head?_cons, Option.mem_some]
  rintro _ rfl
  decide

/-- Behind a schema and its dot the name of the table is read from its start. -/
theorem of_mem_dotted_dot {schema part : Part} {middle : Cursor}
    (dotted : middle ∈ sequence [schemaName, blanks, word ['.'], blanks]
      ⟨left, schema.text ++ '.' :: (part.text ++ rest)⟩) :
    schema.Plain ∧ middle = ⟨some '.', part.text ++ rest⟩ := by
  obtain ⟨plain, gap, gap', split, blank, blank', left'⟩ := schema.of_mem_dotted (apart_dot _) dotted
  obtain ⟨rfl, -, same⟩ := cut_unique (s := []) nofun (by decide) blank (by decide) split
  obtain ⟨c, more, starts, visible⟩ := part.exists_text_cons
  have nothing : gap' = [] := by
    cases gap' with
    | nil => rfl
    | cons d others =>
        rw [starts] at same
        obtain ⟨rfl, -⟩ := List.cons.inj same
        rw [blank' c List.mem_cons_self] at visible
        cases visible
  subst nothing
  obtain ⟨middleLeft, middleRest⟩ := middle
  dsimp only at same left'
  rw [List.nil_append] at same
  rw [← same, left']
  exact ⟨plain, rfl⟩

/-- Where the history table is read in a name, the name is mistakable, and behind what is read of
another name stands a dot or a closing character. -/
theorem of_mem_qualified (identifier : Identifier table) (follows : Follows rest)
    (leftApart : left.any isWord = false)
    (found : stop ∈ qualified table ⟨left, name.text ++ rest⟩) :
    name.Mistakable table ∧ (SameFolded name.table.name table ∧ stop.rest = rest ∨
      ∃ c more, stop.rest = c :: more ∧ (c = '.' ∨ IsClose c)) := by
  rw [qualified_eq] at found
  obtain ⟨middle, schema?, later⟩ := mem_sequence_cons_iff.1 found
  obtain ⟨final, history, ends⟩ := mem_sequence_cons_iff.1 later
  obtain rfl := mem_sequence_nil_iff.1 ends
  unfold Mistakable
  cases schema : name.schema with
  | none =>
      rw [text_of_none schema] at schema?
      rcases mem_optional_iff.1 schema? with dotted | rfl
      · obtain ⟨-, gap, gap', split, blank, -⟩ := name.table.of_mem_dotted follows.apart dotted
        obtain ⟨blanks, c, more, rfl, allBlank, visible, noDot⟩ := follows.undot
        exact absurd (cut_unique allBlank visible blank (by decide) split).2.1 noDot
      · obtain ⟨shows, behind⟩ :=
          name.table.of_mem_historyName identifier follows.apart leftApart history
        exact ⟨shows,
          behind.imp_right fun ⟨c, more, split, close⟩ => ⟨c, more, split, Or.inr close⟩⟩
  | some first =>
      rw [text_of_some schema] at schema?
      rcases mem_optional_iff.1 schema? with dotted | rfl
      · obtain ⟨plain, rfl⟩ := of_mem_dotted_dot dotted
        obtain ⟨shows, behind⟩ :=
          name.table.of_mem_historyName identifier follows.apart (by decide) history
        exact ⟨Or.inr ⟨plain, shows⟩,
          behind.imp_right fun ⟨c, more, split, close⟩ => ⟨c, more, split, Or.inr close⟩⟩
      · obtain ⟨shows, behind⟩ :=
          first.of_mem_historyName identifier (apart_dot _) leftApart history
        refine ⟨Or.inl shows, Or.inr ?_⟩
        rcases behind with ⟨-, split⟩ | ⟨c, more, split, close⟩
        · exact ⟨_, _, split, Or.inl rfl⟩
        · exact ⟨c, more, split, Or.inr close⟩

theorem exists_mem_qualified (identifier : Identifier table) (follows : Follows rest)
    (leftApart : left.any isWord = false) (mistakable : name.Mistakable table) :
    ∃ stop, stop ∈ qualified table ⟨left, name.text ++ rest⟩ := by
  have read {middle : Cursor} (optional : middle ∈ Pattern.optional
        (sequence [schemaName, blanks, word ['.'], blanks]) ⟨left, name.text ++ rest⟩)
      (history : ∃ stop, stop ∈ historyName table middle) :
      ∃ stop, stop ∈ qualified table ⟨left, name.text ++ rest⟩ := by
    obtain ⟨stop, found⟩ := history
    rw [qualified_eq]
    exact ⟨stop, mem_sequence_cons_iff.2 ⟨middle, optional, mem_sequence_cons_iff.2
      ⟨stop, found, mem_sequence_nil_iff.2 rfl⟩⟩⟩
  unfold Mistakable at mistakable
  cases schema : name.schema with
  | none =>
      rw [schema] at mistakable
      refine read (mem_optional_iff.2 (Or.inr rfl)) ?_
      rw [text_of_none schema]
      exact name.table.exists_mem_historyName identifier follows.apart leftApart mistakable
  | some first =>
      rw [schema] at mistakable
      rcases mistakable with shows | ⟨plain, shows⟩
      · refine read (mem_optional_iff.2 (Or.inr rfl)) ?_
        rw [text_of_some schema]
        exact first.exists_mem_historyName identifier (apart_dot _) leftApart shows
      · have history : ∃ stop, stop ∈ historyName table ⟨some '.', name.table.text ++ rest⟩ :=
          name.table.exists_mem_historyName identifier follows.apart (by decide) shows
        refine read (mem_optional_iff.2 (Or.inl ?_)) history
        rw [text_of_some schema]
        exact first.exists_mem_dotted plain _

end TableName

end MigrationSquash.Script
