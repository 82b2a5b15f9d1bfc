import MigrationSquash.Proofs.Import.Directive

/-!
# Paths that are searched for

How far the search for an imported name gets in a path.  Main statement: it gets behind the path
exactly if the path is plain: neither qualified nor broken by blanks, with names of word
characters of which the first starts with one of the first 128 characters and no later one is
verbatim.
-/

set_option autoImplicit false

namespace MigrationSquash.Code

open Text (AllBlank isBlank isWord isWordStart isAsciiWord)

variable {alphabet : Alphabet}

namespace Directive

def Name.IsPlain (name : Name alphabet) : Prop :=
  isWordStart name.first = true ∧ ∀ c ∈ name.rest, isWord c = true

structure Member.IsPlain (member : Member alphabet) : Prop where
  before : member.before.1 = []
  after : member.after.1 = []
  word : ∀ c ∈ member.name.text, isWord c = true

structure Path.IsPlain (path : Path alphabet) : Prop where
  unqualified : path.qualifier = none
  head : path.head.IsPlain
  tail : ∀ member ∈ path.tail, member.IsPlain

/-- The characters that may follow a name where it ends. -/
def endMarks : List Char := ['.', ':', '<', '[', '?', '=', ';']

theorem mark_spec {c : Char} (mark : c ∈ endMarks) : isBlank c = false ∧ isWord c = false ∧
    isWordStart c = false ∧ c ≠ '@' ∧ c.val.toNat < 0x80 ∧ isAsciiWord c = false := by
  simp only [endMarks, List.mem_cons, List.not_mem_nil, or_false] at mark
  rcases mark with rfl | rfl | rfl | rfl | rfl | rfl | rfl <;> decide

/-- No name holds a blank or a mark. -/
theorem Name.mem_text_spec (name : Name alphabet) {c : Char} (member : c ∈ name.text) :
    isBlank c = false ∧ c ∉ endMarks := by
  refine ⟨name.isBlank_of_mem_text member, fun mark => ?_⟩
  obtain ⟨-, -, -, noAt, ascii, noWord⟩ := mark_spec mark
  rcases name.mem_text member with same | inside
  · exact noAt same
  · exact alphabet.ne_of_inside inside ascii noWord rfl

/-- Behind blanks the text goes on with this character. -/
def GoesOn (c : Char) (s : Text) : Prop := ∃ gap rest, s = gap ++ c :: rest ∧ AllBlank gap

theorem GoesOn.trimStart {c : Char} {s : Text} (goesOn : GoesOn c s) (visible : isBlank c = false) :
    ∃ rest, Text.trimStart s = c :: rest := by
  obtain ⟨gap, rest, rfl, blank⟩ := goesOn
  exact ⟨rest, Text.trimStart_append_of_not_isBlank blank visible rest⟩

/-- What neither a blank nor the first visible character belongs to is not stepped over. -/
theorem dropWhile_gap {gap rest : Text} {c : Char} {p : Char → Bool} (blank : AllBlank gap)
    (blanks : ∀ d, isBlank d = true → p d = false) (stops : gap = [] → p c = false) :
    (gap ++ c :: rest).dropWhile p = gap ++ c :: rest := by
  cases gap with
  | nil => exact List.dropWhile_cons_of_neg (by simp [stops rfl])
  | cons d gap => exact List.dropWhile_cons_of_neg (by simp [blanks d (blank d List.mem_cons_self)])

theorem GoesOn.dropWhile {c : Char} {s : Text} {p : Char → Bool} (goesOn : GoesOn c s)
    (blanks : ∀ d, isBlank d = true → p d = false) (stops : p c = false) : s.dropWhile p = s := by
  obtain ⟨gap, rest, rfl, blank⟩ := goesOn
  exact dropWhile_gap blank blanks fun _ => stops

theorem exists_first_not {p : Char → Bool} {s : Text} (broken : ¬ ∀ c ∈ s, p c = true) :
    ∃ front c back, s = front ++ c :: back ∧ (∀ d ∈ front, p d = true) ∧ p c = false := by
  induction s with
  | nil => exact absurd (fun _ member => absurd member List.not_mem_nil) broken
  | cons c rest ih =>
      cases first : p c with
      | false => exact ⟨[], c, rest, rfl, fun _ member => absurd member List.not_mem_nil, first⟩
      | true =>
          obtain ⟨front, d, back, rfl, inside, stops⟩ := ih fun all =>
            broken (List.forall_mem_cons.2 ⟨first, all⟩)
          exact ⟨c :: front, d, back, rfl, List.forall_mem_cons.2 ⟨first, inside⟩, stops⟩

/-- What ends a directive is blank up to the semicolon or starts with a bracket. -/
theorem isDirectiveEnd_eq_false {gap rest : Text} {c : Char} (blank : AllBlank gap)
    (visible : isBlank c = false) (noEnd : c ≠ ';') (noBracket : gap ≠ [] ∨ c ≠ '<') :
    isDirectiveEnd (gap ++ c :: rest) = false := by
  have inGap : ∀ d ∈ gap, decide (d ≠ ';') = true := fun d member => by
    have other : d ≠ ';' := fun same => semicolon_not_mem_of_allBlank blank (same ▸ member)
    simpa using other
  have taken : (gap ++ c :: rest).takeWhile (· ≠ ';') =
      gap ++ c :: rest.takeWhile (· ≠ ';') := by
    rw [List.takeWhile_append_of_pos inGap, List.takeWhile_cons_of_pos (by simpa using noEnd)]
  have shown : Text.isBlankText (gap ++ c :: rest.takeWhile (· ≠ ';')) = false := by
    simp [Text.isBlankText, visible]
  have arguments : isTypeArguments (gap ++ c :: rest.takeWhile (· ≠ ';')) = false := by
    have starts : Text.startsWith ['<']
        (Text.trimEnd (gap ++ c :: rest.takeWhile (· ≠ ';'))) = false := by
      have kept := Text.trimEnd_concat_append gap (rest.takeWhile (· ≠ ';')) visible
      rw [List.append_assoc, List.append_assoc, List.singleton_append,
        List.singleton_append] at kept
      rw [kept]
      cases gap with
      | nil =>
          have noStart : '<' ≠ c := by
            rcases noBracket with other | other
            · exact absurd rfl other
            · exact other.symm
          simp [Text.startsWith, Text.after?, noStart]
      | cons d gap =>
          have noStart : '<' ≠ d := by
            rintro rfl
            exact absurd (blank '<' List.mem_cons_self) (by decide)
          simp [Text.startsWith, Text.after?, noStart]
    rw [isTypeArguments, starts, Bool.false_and]
  unfold isDirectiveEnd
  rw [taken]
  dsimp only
  rw [shown, arguments]
  cases (gap ++ c :: rest).dropWhile (· ≠ ';') with
  | nil => rfl
  | cons d others => simp

namespace Name

variable (name : Name alphabet) (more : Text) {p : Char → Bool}

theorem first_ne_at : name.first ≠ '@' :=
  alphabet.ne_of_inside name.inside_first (by decide) (by decide)

theorem afterIdentifier?_text :
    afterIdentifier? p (name.text ++ more) =
      if isWordStart name.first then some ((name.rest ++ more).dropWhile p) else none := by
  have other := name.first_ne_at
  unfold text
  cases name.verbatim with
  | true => rfl
  | false =>
      unfold afterIdentifier?
      split
      · next same => exact absurd (List.cons.inj same).1 other
      · next same =>
          obtain ⟨rfl, rfl⟩ := List.cons.inj same
          rfl
      · next empty => cases empty

theorem afterIdentifier?_of_isPlain {name : Name alphabet} (plain : name.IsPlain) (more : Text)
    (word : ∀ c, isWord c = true → p c = true) :
    afterIdentifier? p (name.text ++ more) = some (more.dropWhile p) := by
  rw [afterIdentifier?_text, if_pos plain.1,
    List.dropWhile_append_of_pos fun c member => word c (plain.2 c member)]

/-- Where a name is not plain, the search for its end breaks off or stops inside of it. -/
theorem afterIdentifier?_of_not_isPlain {name : Name alphabet} (special : ¬ name.IsPlain)
    (more : Text) (word : ∀ c, isWord c = true → p c = true)
    (stops : ∀ c, isWord c = false → c ∉ endMarks → p c = false) :
    afterIdentifier? p (name.text ++ more) = none ∨
      ∃ c rest, afterIdentifier? p (name.text ++ more) = some (c :: rest) ∧ c ∈ name.text := by
  rw [afterIdentifier?_text]
  split
  case isFalse => exact Or.inl rfl
  case isTrue starts =>
    right
    obtain ⟨front, c, back, split, inFront, noWord⟩ :=
      exists_first_not fun all => special ⟨starts, all⟩
    have member : c ∈ name.text := by simp [text, split]
    refine ⟨c, back ++ more, ?_, member⟩
    rw [split, List.append_assoc, List.cons_append,
      List.dropWhile_append_of_pos fun d inside => word d (inFront d inside),
      List.dropWhile_cons_of_neg (by simp [stops c noWord (name.mem_text_spec member).2])]

end Name

theorem isPathChar_of_isWord (c : Char) (word : isWord c = true) : isPathChar c = true := by
  rw [isPathChar, word, Bool.true_or]

theorem isPathChar_eq_false {c : Char} (noWord : isWord c = false) (noDot : c ≠ '.') :
    isPathChar c = false := by
  simp [isPathChar, noWord, noDot]

theorem isPathChar_of_isBlank (c : Char) (blank : isBlank c = true) : isPathChar c = false := by
  refine isPathChar_eq_false (Text.isWord_of_isBlank blank) ?_
  rintro rfl
  exact absurd blank (by decide)

/-- A path stops where a name holds what is no word character. -/
theorem isPathChar_of_not_mem_endMarks (c : Char) (noWord : isWord c = false)
    (noMark : c ∉ endMarks) : isPathChar c = false :=
  isPathChar_eq_false noWord fun same => noMark (same ▸ by decide)

theorem isDirectiveEnd_of_mem_text {name : Name alphabet} {gap : Text} {c : Char}
    (member : c ∈ name.text) (blank : AllBlank gap) (rest : Text) :
    isDirectiveEnd (gap ++ c :: rest) = false := by
  obtain ⟨visible, noMark⟩ := name.mem_text_spec member
  exact isDirectiveEnd_eq_false blank visible (fun same => noMark (same ▸ by decide))
    (Or.inr fun same => noMark (same ▸ by decide))

theorem isDirectiveEnd_cons_of_mem_text {name : Name alphabet} {c : Char} (member : c ∈ name.text)
    (rest : Text) : isDirectiveEnd (c :: rest) = false :=
  isDirectiveEnd_of_mem_text member (nofun : AllBlank []) rest

/-- A name that is not plain ends no directive. -/
theorem Name.isImportedName_of_not_isPlain {name : Name alphabet} (special : ¬ name.IsPlain)
    (more : Text) : isImportedName (name.text ++ more) = false := by
  unfold isImportedName
  rcases afterIdentifier?_of_not_isPlain special more isPathChar_of_isWord
    isPathChar_of_not_mem_endMarks with breaks | ⟨c, rest, stopped, member⟩
  · rw [breaks]
    rfl
  · rw [stopped]
    exact isDirectiveEnd_cons_of_mem_text member rest

theorem Name.isImportedName_of_isPlain {name : Name alphabet} (plain : name.IsPlain)
    (more : Text) :
    isImportedName (name.text ++ more) = isDirectiveEnd (more.dropWhile isPathChar) := by
  rw [isImportedName, afterIdentifier?_of_isPlain plain more isPathChar_of_isWord, Option.any_some]

/-- Nor does a name that something else follows. -/
theorem Name.isImportedName_of_goesOn (name : Name alphabet) {more : Text} {c : Char}
    (goesOn : GoesOn c more) (visible : isBlank c = false) (noPath : isPathChar c = false)
    (noEnd : c ≠ ';') (noBracket : c ≠ '<') : isImportedName (name.text ++ more) = false := by
  by_cases plain : name.IsPlain
  · rw [isImportedName_of_isPlain plain, goesOn.dropWhile isPathChar_of_isBlank noPath]
    obtain ⟨gap, rest, rfl, blank⟩ := goesOn
    exact isDirectiveEnd_eq_false blank visible noEnd (Or.inr noBracket)
  · exact isImportedName_of_not_isPlain plain more

/-- A later name of a path that is not plain breaks the path off. -/
theorem Member.isDirectiveEnd_of_not_isPlain {member : Member alphabet}
    (special : ¬ member.IsPlain) (more : Text) :
    isDirectiveEnd ((member.text ++ more).dropWhile isPathChar) = false := by
  rw [text, List.append_assoc, List.cons_append, List.append_assoc]
  by_cases before : member.before.1 = []
  · rw [before, List.nil_append, List.dropWhile_cons_of_pos (by decide)]
    by_cases after : member.after.1 = []
    · obtain ⟨front, c, back, split, inFront, noWord⟩ :=
        exists_first_not fun word => special ⟨before, after, word⟩
      have inName : c ∈ member.name.text := by simp [split]
      have stops := isPathChar_of_not_mem_endMarks c noWord (member.name.mem_text_spec inName).2
      rw [after, List.nil_append, split, List.append_assoc, List.cons_append,
        List.dropWhile_append_of_pos fun d inside => isPathChar_of_isWord d (inFront d inside),
        List.dropWhile_cons_of_neg (by simp [stops])]
      exact isDirectiveEnd_cons_of_mem_text inName _
    · obtain ⟨d, others, split, -⟩ := member.name.exists_cons
      have start : d ∈ member.name.text := by simp [split]
      rw [split, List.cons_append, dropWhile_gap member.after.2 isPathChar_of_isBlank
        fun empty => absurd empty after]
      exact isDirectiveEnd_of_mem_text start member.after.2 _
  · rw [dropWhile_gap member.before.2 isPathChar_of_isBlank fun empty => absurd empty before]
    exact isDirectiveEnd_eq_false member.before.2 (by decide) (by decide) (Or.inr (by decide))

theorem Member.goesOn (member : Member alphabet) (rest : Text) :
    GoesOn '.' (member.text ++ rest) :=
  ⟨member.before.1, member.after.1 ++ (member.name.text ++ rest), by simp [text], member.before.2⟩

theorem Member.isPathChar_of_isPlain {member : Member alphabet} (plain : member.IsPlain) :
    ∀ c ∈ member.text, isPathChar c = true := by
  rw [text, plain.before, plain.after, List.nil_append, List.nil_append]
  exact List.forall_mem_cons.2
    ⟨by decide, fun c member => isPathChar_of_isWord c (plain.word c member)⟩

/-- The later names of a path are stepped over if they are plain, one after the other. -/
theorem isDirectiveEnd_members_iff (members : List (Member alphabet)) {rest : Text}
    (stops : rest.dropWhile isPathChar = rest) :
    isDirectiveEnd ((members.flatMap Member.text ++ rest).dropWhile isPathChar) = true ↔
      (∀ member ∈ members, member.IsPlain) ∧ isDirectiveEnd rest = true := by
  induction members with
  | nil => simp [stops]
  | cons member others ih =>
      rw [List.flatMap_cons, List.append_assoc, List.forall_mem_cons]
      by_cases plain : member.IsPlain
      · rw [List.dropWhile_append_of_pos (Member.isPathChar_of_isPlain plain), ih, and_assoc,
          and_iff_right plain]
      · rw [Member.isDirectiveEnd_of_not_isPlain plain]
        simp [plain]

namespace Path

variable (path : Path alphabet) {rest : Text} {c : Char}

theorem exists_qualified {qualifier : Qualifier alphabet}
    (qualified : path.qualifier = some qualifier) (rest : Text) :
    ∃ more, path.text ++ rest = qualifier.name.text ++ more ∧ GoesOn ':' more :=
  ⟨qualifier.before.1 ++ ':' :: ':' :: (qualifier.after.1 ++ (path.head.text ++
      (path.tail.flatMap Member.text ++ rest))), by simp [text, qualified, Qualifier.text],
    _, _, rfl, qualifier.before.2⟩

theorem text_of_unqualified (unqualified : path.qualifier = none) :
    path.text = path.head.text ++ path.tail.flatMap Member.text := by
  simp [text, unqualified]

/-- A path starts with a name, and a mark follows it. -/
theorem exists_name (goesOn : GoesOn c rest) (mark : c ∈ endMarks) (noAlias : c ≠ '=') :
    ∃ (name : Name alphabet) (more : Text) (d : Char),
      path.text ++ rest = name.text ++ more ∧ GoesOn d more ∧ d ∈ endMarks ∧ d ≠ '=' := by
  cases qualified : path.qualifier with
  | some qualifier =>
      obtain ⟨more, start, colons⟩ := path.exists_qualified qualified rest
      exact ⟨qualifier.name, more, ':', start, colons, by decide, by decide⟩
  | none =>
      rw [path.text_of_unqualified qualified, List.append_assoc]
      refine ⟨path.head, path.tail.flatMap Member.text ++ rest, ?_⟩
      cases path.tail with
      | nil => exact ⟨c, rfl, goesOn, mark, noAlias⟩
      | cons member others =>
          rw [List.flatMap_cons, List.append_assoc]
          exact ⟨'.', rfl, member.goesOn _, by decide, by decide⟩

theorem isImportedName_iff (goesOn : GoesOn c rest) (mark : c ∈ endMarks) (noDot : c ≠ '.') :
    isImportedName (path.text ++ rest) = true ↔ path.IsPlain ∧ isDirectiveEnd rest = true := by
  obtain ⟨-, noWord, -⟩ := mark_spec mark
  have stops := goesOn.dropWhile isPathChar_of_isBlank (isPathChar_eq_false noWord noDot)
  cases qualified : path.qualifier with
  | some qualifier =>
      obtain ⟨more, start, colons⟩ := path.exists_qualified qualified rest
      rw [start, qualifier.name.isImportedName_of_goesOn colons (by decide) (by decide) (by decide)
        (by decide)]
      refine iff_of_false Bool.false_ne_true fun both => ?_
      rw [both.1.unqualified] at qualified
      cases qualified
  | none =>
      rw [path.text_of_unqualified qualified, List.append_assoc]
      by_cases plain : path.head.IsPlain
      · rw [Name.isImportedName_of_isPlain plain, isDirectiveEnd_members_iff path.tail stops]
        constructor
        · rintro ⟨tail, ends⟩
          exact ⟨⟨qualified, plain, tail⟩, ends⟩
        · rintro ⟨whole, ends⟩
          exact ⟨whole.tail, ends⟩
      · rw [Name.isImportedName_of_not_isPlain plain]
        exact iff_of_false Bool.false_ne_true fun both => plain both.1.head

end Path

end Directive

end MigrationSquash.Code
