import MigrationSquash.Proofs.Import.Paths

/-!
# Recognized directives

Which directives the search for imports recognizes.  Main statement: a line that starts with a
directive is taken for an import exactly if nothing but blanks follows and the directive is plain:
an alias is a plain name, the path is plain, and what follows the path is nothing or starts and
ends with an angle bracket.
-/

set_option autoImplicit false

namespace MigrationSquash.Code

open Text (AllBlank isBlank isWord isWordStart isAsciiWord trimStart)

variable {alphabet : Alphabet}

namespace Directive

/-- Nothing, or what starts and ends with an angle bracket. -/
def Bracketed (suffix : Text) : Prop :=
  suffix = [] ∨ suffix.head? = some '<' ∧ suffix.getLast? = some '>'

structure TypeName.IsPlain (type : TypeName alphabet) : Prop where
  path : type.path.IsPlain
  suffix : Bracketed type.suffix

def Target.IsPlain : Target alphabet → Prop
  | .names type _ => type.IsPlain
  | .members gap type _ _ => gap.1 ≠ [] ∧ type.IsPlain
  | .renamed name _ _ type => name.IsPlain ∧ type.IsPlain
  | .renamedTuple _ _ _ _ _ => False

end Directive

structure Directive.IsPlain (directive : Directive alphabet) : Prop where
  gap : directive.gap.1 ≠ []
  target : directive.target.IsPlain

namespace Directive

theorem isDirectiveEnd_suffix_iff {suffix space back : Text} (whole : ';' ∉ suffix)
    (ends : EndsVisible suffix) (blank : AllBlank space) :
    isDirectiveEnd (suffix ++ (space ++ ';' :: back)) = true ↔
      Bracketed suffix ∧ AllBlank back := by
  have inside : ∀ d ∈ suffix ++ space, decide (d ≠ ';') = true := fun d member => by
    have other : d ≠ ';' := by
      rintro rfl
      exact (List.mem_append.1 member).elim whole (semicolon_not_mem_of_allBlank blank)
    simpa using other
  have taken : (suffix ++ (space ++ ';' :: back)).takeWhile (· ≠ ';') = suffix ++ space := by
    rw [← List.append_assoc, List.takeWhile_append_of_pos inside,
      List.takeWhile_cons_of_neg (by decide), List.append_nil]
  have left : (suffix ++ (space ++ ';' :: back)).dropWhile (· ≠ ';') = ';' :: back := by
    rw [← List.append_assoc, List.dropWhile_append_of_pos inside,
      List.dropWhile_cons_of_neg (by decide)]
  have trimmed : Text.trimEnd (suffix ++ space) = suffix := by
    rw [Text.trimEnd_append_of_allBlank blank, ends.trimEnd]
  have shown : Text.isBlankText (suffix ++ space) = true ↔ suffix = [] := by
    constructor
    · intro allBlank
      have nothing := Text.trimEnd_append_of_allBlank (Text.allBlank_iff.2 allBlank) []
      rw [List.nil_append, trimmed] at nothing
      exact nothing
    · rintro rfl
      exact Text.allBlank_iff.1 blank
  have arguments : isTypeArguments (suffix ++ space) = true ↔
      suffix.head? = some '<' ∧ suffix.getLast? = some '>' := by
    rw [isTypeArguments, trimmed, Bool.and_eq_true, Text.startsWith_iff, Text.endsWith,
      Option.isSome_iff_exists, List.head?_eq_some_iff, List.getLast?_eq_some_iff]
    simp only [Text.before?_eq_some_iff, List.singleton_append]
  unfold isDirectiveEnd
  rw [taken, left]
  dsimp only
  rw [Bool.and_eq_true, Bool.or_eq_true, shown, arguments, ← Text.allBlank_iff, and_comm, Bracketed]

section Alias

variable (name : Name alphabet) {more : Text} {c : Char}

theorem isWord_of_isBlank (c : Char) (blank : isBlank c = true) : isWord c = false :=
  Text.isWord_of_isBlank blank

theorem after?_equal_of_ne {s : Text} (other : c ≠ '=') : Text.after? ['='] (c :: s) = none :=
  if_neg other.symm

theorem afterAlias?_of_isPlain {name : Name alphabet} (plain : name.IsPlain) (more : Text) :
    afterAlias? (name.text ++ more) =
      (Text.after? ['='] (trimStart (more.dropWhile isWord))).map trimStart := by
  rw [afterAlias?, Name.afterIdentifier?_of_isPlain plain more fun _ word => word]
  exact Option.map_eq_bind.symm

theorem afterAlias?_of_not_isPlain {name : Name alphabet} (special : ¬ name.IsPlain)
    (more : Text) : afterAlias? (name.text ++ more) = none := by
  rcases Name.afterIdentifier?_of_not_isPlain special more (fun _ word => word)
    (fun _ special _ => special) with breaks | ⟨d, rest, stopped, member⟩
  · rw [afterAlias?, breaks]
    rfl
  · obtain ⟨shown, noMark⟩ := name.mem_text_spec member
    have trimmed : trimStart (d :: rest) = d :: rest :=
      List.dropWhile_cons_of_neg (by simp [shown])
    have noEqual : Text.after? ['='] (d :: rest) = none :=
      after?_equal_of_ne fun same => noMark (same ▸ by decide)
    rw [afterAlias?, stopped, Option.bind_eq_bind, Option.bind_some, trimmed, noEqual]
    rfl

/-- What does not go on with an equality sign is no alias. -/
theorem afterAlias?_eq_none (goesOn : GoesOn c more) (mark : c ∈ endMarks) (noAlias : c ≠ '=') :
    afterAlias? (name.text ++ more) = none := by
  obtain ⟨visible, noWord, -⟩ := mark_spec mark
  by_cases plain : name.IsPlain
  · obtain ⟨rest, trimmed⟩ := goesOn.trimStart visible
    rw [afterAlias?_of_isPlain plain, goesOn.dropWhile isWord_of_isBlank noWord, trimmed,
      after?_equal_of_ne noAlias]
    rfl
  · exact afterAlias?_of_not_isPlain plain more

/-- Behind a plain alias the value is found, and behind another one nothing. -/
theorem any_afterAlias?_iff {before after value : Text} (blankBefore : AllBlank before)
    (blankAfter : AllBlank after) (starts : ∃ d rest, value = d :: rest ∧ isBlank d = false) :
    (afterAlias? (name.text ++ (before ++ '=' :: (after ++ value)))).any isImportedName = true ↔
      name.IsPlain ∧ isImportedName value = true := by
  obtain ⟨d, rest, rfl, visible⟩ := starts
  have goesOn : GoesOn '=' (before ++ '=' :: (after ++ d :: rest)) := ⟨_, _, rfl, blankBefore⟩
  have value : Text.after? ['='] ('=' :: (after ++ d :: rest)) = some (after ++ d :: rest) :=
    Text.after?_append ['='] _
  by_cases plain : name.IsPlain
  · rw [afterAlias?_of_isPlain plain, goesOn.dropWhile isWord_of_isBlank (by decide),
      Text.trimStart_append_of_not_isBlank blankBefore (by decide), value, Option.map_some,
      Text.trimStart_append_of_not_isBlank blankAfter visible]
    exact (and_iff_right plain).symm
  · rw [afterAlias?_of_not_isPlain plain]
    exact iff_of_false Bool.false_ne_true fun both => plain both.1

end Alias

theorem afterIdentifier?_eq_none {p : Char → Bool} {c : Char} {rest : Text}
    (noStart : isWordStart c = false) (noAt : c ≠ '@') : afterIdentifier? p (c :: rest) = none := by
  unfold afterIdentifier?
  split
  · next same => exact absurd (List.cons.inj same).1 noAt
  · next same =>
      obtain ⟨rfl, rfl⟩ := List.cons.inj same
      rw [noStart]
      rfl
  · rfl

theorem isImportTarget_of_mark {c : Char} (mark : c ∈ endMarks) (rest : Text) :
    isImportTarget (c :: rest) = false := by
  obtain ⟨-, -, noStart, noAt, -⟩ := mark_spec mark
  rw [isImportTarget, afterAlias?, isImportedName, afterIdentifier?_eq_none noStart noAt,
    afterIdentifier?_eq_none noStart noAt]
  rfl

section Keywords

variable {word gap rest : Text} {c : Char}

theorem afterKeyword?_append (blank : AllBlank gap) (nonempty : gap ≠ [])
    (visible : isBlank c = false) :
    afterKeyword? word (word ++ (gap ++ c :: rest)) = some (c :: rest) := by
  obtain ⟨b, more, rfl⟩ := List.exists_cons_of_ne_nil nonempty
  have inside := List.forall_mem_cons.1 blank
  rw [afterKeyword?, Text.after?_append, List.cons_append]
  dsimp only
  rw [if_pos inside.1, Text.trimStart_append_of_not_isBlank inside.2 visible]

theorem afterKeyword?_of_visible (visible : isBlank c = false) :
    afterKeyword? word (word ++ c :: rest) = none := by
  rw [afterKeyword?, Text.after?_append]
  dsimp only
  rw [if_neg (by rw [visible]; decide)]

/-- A keyword with a blank behind it that is read from a name which a mark follows is the name. -/
theorem Name.eq_of_keyword (name : Name alphabet) {more : Text} {b : Char}
    (plain : ∀ d ∈ word, isBlank d = false ∧ d ∉ endMarks) (goesOn : GoesOn c more)
    (mark : c ∈ endMarks) (blank : isBlank b = true) (split : name.text ++ more = word ++ b :: rest) :
    more = b :: rest := by
  rcases append_cons_cases split with ⟨others, whole, ends⟩ | ⟨others, whole, -⟩
  · cases others with
    | nil => exact ends
    | cons d others =>
        -- the text would go on with a letter of the keyword
        obtain ⟨shown, noMark⟩ := plain d (by rw [whole]; simp)
        obtain ⟨gap, tail, same, allBlank⟩ := goesOn
        cases gap with
        | nil =>
            obtain ⟨rfl, -⟩ := List.cons.inj (ends.symm.trans same)
            exact absurd mark noMark
        | cons e gap =>
            obtain ⟨rfl, -⟩ := List.cons.inj (ends.symm.trans same)
            rw [allBlank d List.mem_cons_self] at shown
            cases shown
  · -- the name would hold the blank behind the keyword
    have shown := name.isBlank_of_mem_text (c := b) (by rw [whole]; simp)
    rw [blank] at shown
    cases shown

/-- A name that a mark follows is no keyword with a target behind it. -/
theorem any_afterKeyword?_eq_false (name : Name alphabet) {more : Text}
    (plain : ∀ d ∈ word, isBlank d = false ∧ d ∉ endMarks) (goesOn : GoesOn c more)
    (mark : c ∈ endMarks) :
    (afterKeyword? word (name.text ++ more)).any isImportTarget = false := by
  cases found : afterKeyword? word (name.text ++ more) with
  | none => rfl
  | some value =>
      unfold afterKeyword? at found
      split at found
      case h_2 => cases found
      case h_1 b rest split =>
        split at found
        case isFalse => cases found
        case isTrue blank =>
          have value := Option.some.inj found
          subst value
          obtain ⟨visible, -⟩ := mark_spec mark
          have behind : more = b :: rest :=
            name.eq_of_keyword plain goesOn mark blank (Text.after?_eq_some_iff.1 split)
          obtain ⟨tail, trimmed⟩ := goesOn.trimStart visible
          have same : Text.trimStart rest = Text.trimStart more := by
            rw [behind, Text.trimStart, Text.trimStart, List.dropWhile_cons_of_pos blank]
          rw [Option.any_some, same, trimmed]
          exact isImportTarget_of_mark mark tail

end Keywords

namespace Written

variable {s : Text}

theorem goesOn_arguments (written : Written alphabet .arguments s) (rest : Text) :
    s = [] ∨ GoesOn '<' (s ++ rest) := by
  cases written with
  | bare => exact Or.inl rfl
  | given blank | nested blank => exact Or.inr ⟨_, _, by rw [List.append_assoc]; rfl, blank⟩

theorem goesOn_marks (written : Written alphabet .marks s) (rest : Text) :
    s = [] ∨ GoesOn '[' (s ++ rest) ∨ GoesOn '?' (s ++ rest) := by
  cases written with
  | unmarked => exact Or.inl rfl
  | rank blank => exact Or.inr (Or.inl ⟨_, _, by rw [List.append_assoc]; rfl, blank⟩)
  | nullable blank => exact Or.inr (Or.inr ⟨_, _, by rw [List.append_assoc]; rfl, blank⟩)

end Written

namespace TypeName

variable (type : TypeName alphabet) {space : Text} (blank : AllBlank space) (back : Text)
include blank

/-- Behind the path of a type comes a bracket, a question mark or the end of the directive. -/
theorem exists_goesOn :
    ∃ c, GoesOn c (type.suffix ++ (space ++ ';' :: back)) ∧ c ∈ endMarks ∧ c ≠ '.' ∧ c ≠ '=' := by
  rw [suffix, List.append_assoc]
  rcases type.given.goesOn_arguments (type.marks ++ (space ++ ';' :: back)) with empty | bracket
  · rw [empty, List.nil_append]
    rcases type.marked.goesOn_marks (space ++ ';' :: back) with empty | bracket | question
    · rw [empty, List.nil_append]
      exact ⟨';', ⟨space, back, rfl, blank⟩, by decide, by decide, by decide⟩
    · exact ⟨'[', bracket, by decide, by decide, by decide⟩
    · exact ⟨'?', question, by decide, by decide, by decide⟩
  · exact ⟨'<', bracket, by decide, by decide, by decide⟩

theorem isImportedName_iff :
    isImportedName (type.text ++ (space ++ ';' :: back)) = true ↔
      type.IsPlain ∧ AllBlank back := by
  obtain ⟨c, goesOn, mark, noDot, -⟩ := type.exists_goesOn blank back
  rw [text, List.append_assoc, type.path.isImportedName_iff goesOn mark noDot,
    isDirectiveEnd_suffix_iff type.semicolon_not_mem_suffix type.endsVisible_suffix blank]
  constructor
  · rintro ⟨path, suffix, rest⟩
    exact ⟨⟨path, suffix⟩, rest⟩
  · rintro ⟨plain, rest⟩
    exact ⟨plain.path, plain.suffix, rest⟩

/-- A type starts with a name, and a mark follows it. -/
theorem exists_name :
    ∃ (name : Name alphabet) (more : Text) (d : Char),
      type.text ++ (space ++ ';' :: back) = name.text ++ more ∧ GoesOn d more ∧ d ∈ endMarks ∧
        d ≠ '=' := by
  obtain ⟨c, goesOn, mark, -, noAlias⟩ := type.exists_goesOn blank back
  rw [text, List.append_assoc]
  exact type.path.exists_name goesOn mark noAlias

theorem isImportTarget_iff :
    isImportTarget (type.text ++ (space ++ ';' :: back)) = true ↔
      type.IsPlain ∧ AllBlank back := by
  obtain ⟨name, more, d, start, goesOn, mark, noAlias⟩ := type.exists_name blank back
  have noValue : afterAlias? (type.text ++ (space ++ ';' :: back)) = none := by
    rw [start]
    exact afterAlias?_eq_none name goesOn mark noAlias
  rw [isImportTarget, noValue, Option.any_none, Bool.false_or, type.isImportedName_iff blank]

end TypeName

/-- A type starts with a visible character that is no equality sign. -/
theorem TypeName.exists_cons (type : TypeName alphabet) :
    ∃ c rest, type.text = c :: rest ∧ ∃ name : Name alphabet, c ∈ name.text := by
  have start : ∃ (name : Name alphabet) (more : Text), type.text = name.text ++ more := by
    unfold text
    cases qualified : type.path.qualifier with
    | some qualifier =>
        obtain ⟨more, whole, -⟩ := type.path.exists_qualified qualified type.suffix
        exact ⟨qualifier.name, more, whole⟩
    | none =>
        rw [type.path.text_of_unqualified qualified, List.append_assoc]
        exact ⟨type.path.head, _, rfl⟩
  obtain ⟨name, more, whole⟩ := start
  obtain ⟨c, rest, split, -⟩ := name.exists_cons
  exact ⟨c, rest ++ more, by rw [whole, split, List.cons_append], name, by simp [split]⟩

/-- The keyword in front of a type whose members are imported reads like a name. -/
def staticName (alphabet : Alphabet) : Name alphabet where
  verbatim := false
  first := 's'
  rest := "tatic".toList
  starts := by
    rw [alphabet.starts_ascii 's' (by decide)]
    decide
  inside c member := by
    have ascii : ("tatic".toList.all fun c => decide (c.val.toNat < 0x80) && isAsciiWord c) =
        true := by decide
    have here := List.all_eq_true.1 ascii c member
    rw [Bool.and_eq_true, decide_eq_true_eq] at here
    rw [alphabet.inside_ascii c here.1]
    exact here.2

theorem isPlain_staticName : (staticName alphabet).IsPlain := by
  have start : isWordStart 's' = true := by decide
  have word : "tatic".toList.all isWord = true := by decide
  exact ⟨start, List.all_eq_true.1 word⟩

/-- What follows a name is no target behind the keyword. -/
theorem any_static_eq_false (name : Name alphabet) {c : Char} {more : Text}
    (goesOn : GoesOn c more) (mark : c ∈ endMarks) :
    (afterKeyword? "static".toList (name.text ++ more)).any isImportTarget = false :=
  any_afterKeyword?_eq_false name (fun _ member => (staticName alphabet).mem_text_spec member)
    goesOn mark

section Readings

variable {c : Char} {rest : Text}

theorem isImportedName_eq_false (noStart : isWordStart c = false) (noAt : c ≠ '@') :
    isImportedName (c :: rest) = false := by
  rw [isImportedName, afterIdentifier?_eq_none noStart noAt]
  rfl

/-- A name with another one behind it, and nothing between them that joins them, is no target. -/
theorem isImportTarget_of_adjacent {name other : Name alphabet} {gap : Text} (blank : AllBlank gap)
    (member : c ∈ other.text) (apart : gap = [] → c = '@') (plain : name.IsPlain) :
    isImportTarget (name.text ++ (gap ++ c :: rest)) = false := by
  obtain ⟨visible, noMark⟩ := other.mem_text_spec member
  have noWord : gap = [] → isWord c = false := fun empty => by
    rw [apart empty]
    decide
  have noPath : gap = [] → isPathChar c = false := fun empty => by
    rw [apart empty]
    decide
  have noEqual : Text.after? ['='] (c :: rest) = none :=
    after?_equal_of_ne fun same => noMark (same ▸ by decide)
  have noValue : afterAlias? (name.text ++ (gap ++ c :: rest)) = none := by
    rw [afterAlias?_of_isPlain plain, dropWhile_gap blank isWord_of_isBlank noWord,
      Text.trimStart_append_of_not_isBlank blank visible, noEqual]
    rfl
  rw [isImportTarget, noValue, Option.any_none, Bool.false_or,
    Name.isImportedName_of_isPlain plain, dropWhile_gap blank isPathChar_of_isBlank noPath]
  exact isDirectiveEnd_of_mem_text member blank rest

/-- Behind `using` an alias is looked for and what it stands for. -/
theorem reads_alias_iff (name : Name alphabet) {before after value : Text}
    (blankBefore : AllBlank before) (blankAfter : AllBlank after)
    (starts : ∃ d others, value = d :: others ∧ isBlank d = false) :
    ((afterKeyword? "static".toList (name.text ++ (before ++ '=' :: (after ++ value)))).any
          isImportTarget ||
        isImportTarget (name.text ++ (before ++ '=' :: (after ++ value)))) = true ↔
      name.IsPlain ∧ isImportedName value = true := by
  have goesOn : GoesOn '=' (before ++ '=' :: (after ++ value)) := ⟨_, _, rfl, blankBefore⟩
  rw [any_static_eq_false name goesOn (by decide), Bool.false_or, isImportTarget,
    name.isImportedName_of_goesOn goesOn (by decide) (by decide) (by decide) (by decide),
    Bool.or_false, any_afterAlias?_iff name blankBefore blankAfter starts]

end Readings

/-- Behind the keyword the type is looked for, if there is a blank between them. -/
theorem reads_members_iff {owner : Name alphabet} {gap rest : Text} {c : Char}
    (blank : AllBlank gap) (member : c ∈ owner.text) (apart : gap = [] → c = '@') :
    ((afterKeyword? "static".toList ("static".toList ++ (gap ++ c :: rest))).any isImportTarget ||
        isImportTarget ("static".toList ++ (gap ++ c :: rest))) = true ↔
      gap ≠ [] ∧ isImportTarget (c :: rest) = true := by
  have shown := (owner.mem_text_spec member).1
  have noTarget : isImportTarget ("static".toList ++ (gap ++ c :: rest)) = false := by
    have name : "static".toList = (staticName alphabet).text := rfl
    rw [name]
    exact isImportTarget_of_adjacent blank member apart isPlain_staticName
  rw [noTarget, Bool.or_false]
  by_cases empty : gap = []
  · rw [empty, List.nil_append, afterKeyword?_of_visible shown]
    exact iff_of_false Bool.false_ne_true fun both => both.1 rfl
  · rw [afterKeyword?_append blank empty shown, Option.any_some]
    exact (and_iff_right empty).symm

/-- What the search looks for behind `using`. -/
theorem Target.reads_iff (target : Target alphabet) {space : Text} (blank : AllBlank space)
    (back : Text) :
    ((afterKeyword? "static".toList (target.text ++ (space ++ ';' :: back))).any isImportTarget ||
        isImportTarget (target.text ++ (space ++ ';' :: back))) = true ↔
      target.IsPlain ∧ AllBlank back := by
  cases target with
  | names type bare =>
      obtain ⟨name, more, d, start, goesOn, mark, -⟩ := type.exists_name blank back
      have noKeyword := any_static_eq_false name goesOn mark
      rw [← start] at noKeyword
      rw [text_names, noKeyword, Bool.false_or, type.isImportTarget_iff blank]
      rfl
  | members gap type unmarked apart =>
      obtain ⟨c, rest, split, owner, inName⟩ := type.exists_cons
      have whole : text (.members gap type unmarked apart) ++ (space ++ ';' :: back) =
          "static".toList ++ (gap.1 ++ c :: (rest ++ (space ++ ';' :: back))) := by
        rw [text_members, split]
        simp
      have at_ : gap.1 = [] → c = '@' := fun empty => by
        have first := apart empty
        rw [split] at first
        exact Option.some.inj first
      have type_iff := type.isImportTarget_iff blank back
      rw [split, List.cons_append] at type_iff
      rw [whole, reads_members_iff gap.2 inName at_, type_iff, ← and_assoc]
      rfl
  | renamed name before after type =>
      obtain ⟨c, rest, split, owner, inName⟩ := type.exists_cons
      have starts : ∃ d others, type.text ++ (space ++ ';' :: back) = d :: others ∧
          isBlank d = false :=
        ⟨c, rest ++ (space ++ ';' :: back), by rw [split]; rfl, (owner.mem_text_spec inName).1⟩
      have whole : text (.renamed name before after type) ++ (space ++ ';' :: back) =
          name.text ++ (before.1 ++ '=' :: (after.1 ++ (type.text ++ (space ++ ';' :: back)))) := by
        simp
      rw [whole, reads_alias_iff name before.2 after.2 starts, type.isImportedName_iff blank,
        ← and_assoc]
      rfl
  | renamedTuple name before after type written =>
      cases written with
      | tuple one more behind =>
          rename_i first others marks
          have whole : text (.renamedTuple name before after
                ('(' :: (first ++ ',' :: (others ++ ')' :: marks))) (.tuple one more behind)) ++
                (space ++ ';' :: back) =
              name.text ++ (before.1 ++ '=' :: (after.1 ++ '(' :: (first ++ ',' :: (others ++
                ')' :: (marks ++ (space ++ ';' :: back)))))) := by
            simp
          rw [whole, reads_alias_iff name before.2 after.2 ⟨_, _, rfl, by decide⟩,
            isImportedName_eq_false (by decide) (by decide)]
          exact iff_of_false (fun both => Bool.false_ne_true both.2) fun both => both.1

/-- A target starts with a visible character. -/
theorem Target.exists_cons (target : Target alphabet) :
    ∃ c rest, target.text = c :: rest ∧ isBlank c = false := by
  have ofName (name : Name alphabet) (more : Text) :
      ∃ c rest, name.text ++ more = c :: rest ∧ isBlank c = false := by
    obtain ⟨c, rest, split, -⟩ := name.exists_cons
    exact ⟨c, rest ++ more, by rw [split, List.cons_append],
      (name.mem_text_spec (by simp [split])).1⟩
  cases target with
  | names type bare =>
      obtain ⟨c, rest, split, owner, inName⟩ := type.exists_cons
      exact ⟨c, rest, split, (owner.mem_text_spec inName).1⟩
  | members gap type unmarked apart => exact ⟨'s', _, rfl, by decide⟩
  | renamed name before after type => exact ofName name _
  | renamedTuple name before after type written => exact ofName name _

end Directive

/-- Blanks and the keyword for the whole project are passed over. -/
theorem afterGlobal_getD (directive : Directive alphabet) {front : Text} (blank : AllBlank front)
    (back : Text) :
    (afterKeyword? "global".toList (trimStart (front ++ (directive.text ++ back)))).getD
        (trimStart (front ++ (directive.text ++ back))) =
      "using".toList ++ (directive.gap.1 ++
        (directive.target.text ++ (directive.space.1 ++ ';' :: back))) := by
  generalize isBody : directive.target.text ++ (directive.space.1 ++ ';' :: back) = body
  cases wide : directive.globalGap with
  | none =>
      have whole : directive.text ++ back =
          'u' :: ("sing".toList ++ (directive.gap.1 ++ body)) := by
        simp [Directive.text, wide, ← isBody]
      rw [whole, Text.trimStart_append_of_not_isBlank blank (by decide)]
      rfl
  | some gap =>
      have whole : directive.text ++ back =
          'g' :: ("lobal".toList ++ (gap.1 ++ 'u' :: ("sing".toList ++
            (directive.gap.1 ++ body)))) := by
        simp [Directive.text, wide, ← isBody]
      have keyword : afterKeyword? "global".toList ("global".toList ++ (gap.1 ++
          'u' :: ("sing".toList ++ (directive.gap.1 ++ body)))) =
            some ('u' :: ("sing".toList ++ (directive.gap.1 ++ body))) :=
        Directive.afterKeyword?_append gap.2 (directive.globalApart gap wide) (by decide)
      rw [whole, Text.trimStart_append_of_not_isBlank blank (by decide)]
      change (afterKeyword? _ ("global".toList ++
        (gap.1 ++ 'u' :: ("sing".toList ++ _)))).getD _ = _
      rw [keyword]
      rfl

/-- A line that starts with a directive is taken for an import exactly if the directive is plain
and only blanks follow it. -/
theorem isImport_iff (directive : Directive alphabet) {front : Text} (blank : AllBlank front)
    (back : Text) :
    isImport (front ++ (directive.text ++ back)) = true ↔
      directive.IsPlain ∧ AllBlank back := by
  obtain ⟨c, rest, split, visible⟩ := directive.target.exists_cons
  have target_iff := directive.target.reads_iff directive.space.2 back
  have bodySplit : directive.target.text ++ (directive.space.1 ++ ';' :: back) =
      c :: (rest ++ (directive.space.1 ++ ';' :: back)) := by
    rw [split, List.cons_append]
  unfold isImport
  dsimp only
  rw [afterGlobal_getD directive blank back]
  by_cases empty : directive.gap.1 = []
  · -- an at sign stands directly behind the keyword
    rw [empty, List.nil_append, bodySplit, Directive.afterKeyword?_of_visible visible]
    exact iff_of_false Bool.false_ne_true fun both => both.1.gap empty
  · rw [bodySplit, Directive.afterKeyword?_append directive.gap.2 empty visible, ← bodySplit]
    dsimp only
    rw [target_iff]
    constructor
    · rintro ⟨plain, ends⟩
      exact ⟨⟨empty, plain⟩, ends⟩
    · rintro ⟨plain, ends⟩
      exact ⟨plain.target, ends⟩

end MigrationSquash.Code
