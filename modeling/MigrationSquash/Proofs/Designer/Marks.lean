import MigrationSquash.Migration.Designer
import MigrationSquash.Proofs.Import.Directive
import MigrationSquash.Proofs.Region.Signature

/-!
# Marks of identity in designer files

The attribute that names a migration and the declaration of its class, each around the token that
bears the identity: what they look like, and that they are found where they can be read first.
Main statement: a split of a text at a mark is one around a token of the mark.
-/

set_option autoImplicit false

namespace MigrationSquash.Designer

open Code (Alphabet not_mem_of_allBlank)
open Code.Directive (Gap Name)
open Text (AllBlank isAsciiWord isBlank isWordStart)

/-- Blanks between two words. -/
abbrev Space := { s : Text // AllBlank s ∧ s ≠ [] }

/-- The blanks between the parts of `[Migration("` and of `")]`. -/
structure Brackets where
  name : Gap
  opening : Gap
  argument : Gap
  closing : Gap
  stop : Gap

namespace Brackets

variable (brackets : Brackets)

def head : Text :=
  '[' :: (brackets.name.1 ++ ("Migration".toList ++
    (brackets.opening.1 ++ '(' :: (brackets.argument.1 ++ ['"']))))

def foot : Text := '"' :: (brackets.closing.1 ++ ')' :: (brackets.stop.1 ++ [']']))

theorem head_append (rest : Text) : brackets.head ++ rest =
    '[' :: (brackets.name.1 ++ ("Migration".toList ++
      (brackets.opening.1 ++ '(' :: (brackets.argument.1 ++ '"' :: rest)))) := by
  simp only [head, List.append_assoc, List.cons_append, List.nil_append]

theorem not_mem_head {c : Char} (visible : isBlank c = false)
    (absent : c ∉ '[' :: '(' :: '"' :: "Migration".toList) : c ∉ brackets.head := by
  have inGap (gap : Gap) : c ∉ gap.1 := not_mem_of_allBlank gap.2 visible
  simp only [List.mem_cons, not_or] at absent
  obtain ⟨noBracket, noParenthesis, noQuote, noWord⟩ := absent
  simp only [head, List.mem_cons, List.mem_append, List.not_mem_nil, or_false, not_or]
  exact ⟨noBracket, inGap _, noWord, inGap _, noParenthesis, inGap _, noQuote⟩

theorem not_mem_foot {c : Char} (visible : isBlank c = false) (absent : c ∉ ['"', ')', ']']) :
    c ∉ brackets.foot := by
  have inGap (gap : Gap) : c ∉ gap.1 := not_mem_of_allBlank gap.2 visible
  simp only [List.mem_cons, List.not_mem_nil, or_false, not_or] at absent
  obtain ⟨noQuote, noParenthesis, noBracket⟩ := absent
  simp only [foot, List.mem_cons, List.mem_append, List.not_mem_nil, or_false, not_or]
  exact ⟨noQuote, inGap _, noParenthesis, inGap _, noBracket⟩

/-- The bracket that opens the attribute is the only one before the argument. -/
theorem exists_head_eq_cons : ∃ tail, brackets.head = '[' :: tail ∧ '[' ∉ tail := by
  have inGap (gap : Gap) : '[' ∉ gap.1 := not_mem_of_allBlank gap.2 (by decide)
  refine ⟨_, rfl, ?_⟩
  simp only [List.mem_cons, List.mem_append, List.not_mem_nil, or_false, not_or]
  exact ⟨inGap _, by decide, inGap _, by decide, inGap _, by decide⟩

theorem exists_head_eq_concat : ∃ init, brackets.head = init ++ ['"'] :=
  ⟨'[' :: (brackets.name.1 ++ ("Migration".toList ++ (brackets.opening.1 ++
    '(' :: brackets.argument.1))), by simp only [head, List.cons_append, List.append_assoc]⟩

theorem getLast?_foot : brackets.foot.getLast? = some ']' := by
  have split : brackets.foot = ('"' :: (brackets.closing.1 ++ ')' :: brackets.stop.1)) ++ [']'] := by
    simp only [foot, List.append_assoc, List.cons_append]
  rw [split, List.getLast?_concat]

theorem foot_append (rest : Text) : brackets.foot ++ rest =
    '"' :: (brackets.closing.1 ++ ')' :: (brackets.stop.1 ++ ']' :: rest)) := by
  simp only [foot, List.append_assoc, List.cons_append, List.nil_append]

end Brackets

/-- A text that a blank ends. -/
def EndsBlank (s : Text) : Prop := ∃ c, s.getLast? = some c ∧ isBlank c = true

/-- The blanks behind `partial` and behind `class`. -/
structure Keywords where
  first : Space
  second : Space

def Keywords.text (keywords : Keywords) : Text :=
  "partial".toList ++ (keywords.first.1 ++ ("class".toList ++ keywords.second.1))

theorem Keywords.text_append (keywords : Keywords) (rest : Text) : keywords.text ++ rest =
    "partial".toList ++ (keywords.first.1 ++ ("class".toList ++ (keywords.second.1 ++ rest))) := by
  unfold text
  simp only [List.append_assoc]

namespace Keywords

variable (keywords : Keywords)

theorem not_mem_text {c : Char} (visible : isBlank c = false)
    (absent : c ∉ "partial".toList ∧ c ∉ "class".toList) : c ∉ keywords.text := by
  have inSpace (space : Space) : c ∉ space.1 := not_mem_of_allBlank space.2.1 visible
  unfold text
  simp only [List.mem_append, not_or]
  exact ⟨absent.1, inSpace _, absent.2, inSpace _⟩

theorem exists_isBlank : ∃ c ∈ keywords.text, isBlank c = true := by
  obtain ⟨c, member⟩ := List.exists_mem_of_ne_nil _ keywords.first.2.2
  unfold text
  exact ⟨c, List.mem_append_right _ (List.mem_append_left _ member), keywords.first.2.1 c member⟩

/-- There is a blank right before the name. -/
theorem endsBlank (front : Text) : EndsBlank (front ++ keywords.text) := by
  obtain ⟨init, last, split⟩ :=
    (List.eq_nil_or_concat' keywords.second.1).resolve_left keywords.second.2.2
  have blank := keywords.second.2.1 last (by rw [split]; simp)
  unfold text
  rw [split]
  simp only [← List.append_assoc]
  exact ⟨last, List.getLast?_concat, blank⟩

/-- The keywords start with their only `p`. -/
theorem exists_text_eq_cons : ∃ tail, keywords.text = 'p' :: tail ∧ 'p' ∉ tail := by
  have inSpace (space : Space) : 'p' ∉ space.1 := not_mem_of_allBlank space.2.1 (by decide)
  refine ⟨"artial".toList ++ (keywords.first.1 ++ ("class".toList ++ keywords.second.1)), rfl, ?_⟩
  simp only [List.mem_append, not_or]
  exact ⟨by decide, inSpace _, by decide, inSpace _⟩

end Keywords

/-- The alphabet of the names that are replaced. -/
def ascii : Alphabet where
  starts := isWordStart
  inside := isAsciiWord
  inside_of_starts c starts := by
    rw [isWordStart, Bool.or_eq_true] at starts
    rw [isAsciiWord, Char.isAlphanum, Bool.or_eq_true, Bool.or_eq_true]
    exact starts.imp_left Or.inl
  starts_ascii _ _ := rfl
  inside_ascii _ _ := rfl
  visible _ word := Text.isBlank_eq_false_of_isWord (Text.isWord_of_isAsciiWord word)

/-- A word that blanks before it are told from. -/
def Starts (word : Text) : Prop := ∃ c more, word = c :: more ∧ isBlank c = false

section Pieces

variable {s rest word : Text}

theorem after?_trimStart_eq_some_iff (starts : Starts word) :
    Text.after? word (Text.trimStart s) = some rest ↔ ∃ gap : Gap, s = gap.1 ++ (word ++ rest) := by
  rw [Text.after?_eq_some_iff]
  constructor
  · intro trimmed
    obtain ⟨blanks, split, allBlank⟩ := Text.blanks_append_trimStart s
    exact ⟨⟨blanks, allBlank⟩, by rw [← trimmed]; exact split⟩
  · rintro ⟨gap, rfl⟩
    obtain ⟨c, more, rfl, visible⟩ := starts
    exact Text.trimStart_append_of_not_isBlank gap.2 visible (more ++ rest)

theorem starts_migration : Starts "Migration".toList := ⟨'M', _, rfl, by decide⟩

theorem starts_singleton {c : Char} (visible : isBlank c = false) : Starts [c] :=
  ⟨c, [], rfl, visible⟩

theorem afterAttribute?_eq_some_iff : afterAttribute? s = some rest ↔
    ∃ name opening argument : Gap, s = '[' :: (name.1 ++ ("Migration".toList ++
      (opening.1 ++ '(' :: (argument.1 ++ '"' :: rest)))) := by
  have parenthesis : Starts ['('] := starts_singleton (by decide)
  have quote : Starts ['"'] := starts_singleton (by decide)
  simp only [afterAttribute?, Option.bind_eq_bind, Option.bind_eq_some_iff,
    after?_trimStart_eq_some_iff starts_migration, after?_trimStart_eq_some_iff parenthesis,
    after?_trimStart_eq_some_iff quote, Text.after?_eq_some_iff]
  constructor
  · rintro ⟨_, rfl, _, ⟨name, rfl⟩, _, ⟨opening, rfl⟩, argument, rfl⟩
    exact ⟨name, opening, argument, rfl⟩
  · rintro ⟨name, opening, argument, rfl⟩
    exact ⟨_, rfl, _, ⟨name, rfl⟩, _, ⟨opening, rfl⟩, argument, rfl⟩

theorem endsAttribute_iff : endsAttribute s = true ↔
    ∃ (closing stop : Gap) (rest : Text),
      s = '"' :: (closing.1 ++ ')' :: (stop.1 ++ ']' :: rest)) := by
  have parenthesis : Starts [')'] := starts_singleton (by decide)
  have bracket : Starts [']'] := starts_singleton (by decide)
  have steps : endsAttribute s = true ↔ ∃ a, Text.after? ['"'] s = some a ∧
      ∃ b, Text.after? [')'] (Text.trimStart a) = some b ∧
        ∃ rest, Text.after? [']'] (Text.trimStart b) = some rest := by
    unfold endsAttribute
    cases Text.after? ['"'] s with
    | none => simp
    | some a =>
        cases second : Text.after? [')'] (Text.trimStart a) with
        | none => simp [second]
        | some b => simp [second, Text.startsWith, Option.isSome_iff_exists]
  simp only [steps, after?_trimStart_eq_some_iff parenthesis, after?_trimStart_eq_some_iff bracket,
    Text.after?_eq_some_iff]
  constructor
  · rintro ⟨_, rfl, _, ⟨closing, rfl⟩, rest, stop, rfl⟩
    exact ⟨closing, stop, rest, rfl⟩
  · rintro ⟨closing, stop, rest, rfl⟩
    exact ⟨_, rfl, _, ⟨closing, rfl⟩, rest, stop, rfl⟩

theorem splitAttribute?_eq_some_iff {head tail : Text} :
    splitAttribute? s = some (head, tail) ↔
      ∃ (brackets : Brackets) (argument rest : Text), '"' ∉ argument ∧
        s = brackets.head ++ (argument ++ tail) ∧ head = brackets.head ∧
        tail = brackets.foot ++ rest := by
  have step : splitAttribute? s = some (head, tail) ↔ ∃ argument,
      afterAttribute? s = some argument ∧
        endsAttribute (argument.dropWhile (· ≠ '"')) = true ∧
        s.take (s.length - argument.length) = head ∧ argument.dropWhile (· ≠ '"') = tail := by
    simp only [splitAttribute?, Option.bind_eq_bind, Option.bind_eq_some_iff,
      Option.ite_none_right_eq_some, Option.some.injEq, Prod.mk.injEq]
  rw [step]
  constructor
  · rintro ⟨argument, found, ends, rfl, rfl⟩
    obtain ⟨name, opening, before, whole⟩ := afterAttribute?_eq_some_iff.1 found
    obtain ⟨closing, stop, rest, tail⟩ := endsAttribute_iff.1 ends
    let brackets : Brackets := ⟨name, opening, before, closing, stop⟩
    have split := List.takeWhile_append_dropWhile (p := (· ≠ '"')) (l := argument)
    have absent : '"' ∉ argument.takeWhile (· ≠ '"') := fun member => by
      simpa using List.mem_takeWhile_imp member
    rw [← brackets.head_append] at whole
    rw [← brackets.foot_append] at tail
    refine ⟨brackets, argument.takeWhile (· ≠ '"'), rest, absent, ?_, ?_, tail⟩
    · rw [split, whole]
    · rw [whole, List.length_append, Nat.add_sub_cancel, List.take_left]
  · rintro ⟨brackets, argument, rest, absent, rfl, rfl, rfl⟩
    have passed : ∀ c ∈ argument, decide (c ≠ '"') = true := fun c member =>
      decide_eq_true fun quote => absent (quote ▸ member)
    have stops : (argument ++ (brackets.foot ++ rest)).dropWhile (· ≠ '"') =
        brackets.foot ++ rest := by
      rw [List.dropWhile_append_of_pos passed]
      rfl
    refine ⟨argument ++ (brackets.foot ++ rest), ?_, ?_, ?_, stops⟩
    · exact afterAttribute?_eq_some_iff.2
        ⟨brackets.name, brackets.opening, brackets.argument, brackets.head_append _⟩
    · rw [stops]
      exact endsAttribute_iff.2 ⟨brackets.closing, brackets.stop, rest, brackets.foot_append rest⟩
    · rw [List.length_append, Nat.add_sub_cancel, List.take_left]

theorem afterSpacedWord?_eq_some_iff : afterSpacedWord? word s = some rest ↔
    ∃ space : Space, s = word ++ (space.1 ++ rest) ∧ ∀ c ∈ rest.head?, isBlank c = false := by
  have step : afterSpacedWord? word s = some rest ↔ ∃ a, Text.after? word s = some a ∧
      (Text.trimStart a).length < a.length ∧ Text.trimStart a = rest := by
    simp only [afterSpacedWord?, Option.bind_eq_bind, Option.bind_eq_some_iff,
      Option.ite_none_right_eq_some, Option.some.injEq]
  simp only [step, Text.after?_eq_some_iff]
  constructor
  · rintro ⟨a, rfl, shorter, rfl⟩
    obtain ⟨blanks, split, allBlank⟩ := Text.blanks_append_trimStart a
    have nonempty : blanks ≠ [] := by
      rintro rfl
      rw [List.nil_append] at split
      rw [← split] at shorter
      exact absurd shorter (Nat.lt_irrefl _)
    refine ⟨⟨blanks, allBlank, nonempty⟩, congrArg (word ++ ·) split, fun c first => ?_⟩
    have visible := List.head?_dropWhile_not isBlank a
    rw [← Text.trimStart, first] at visible
    simpa using visible
  · rintro ⟨⟨blanks, allBlank, nonempty⟩, rfl, visible⟩
    have trimmed : Text.trimStart (blanks ++ rest) = rest := by
      rw [Text.trimStart, List.dropWhile_append_of_pos allBlank]
      cases rest with
      | nil => rfl
      | cons c more => exact List.dropWhile_cons_of_neg (by simp [visible c rfl])
    refine ⟨blanks ++ rest, rfl, ?_, trimmed⟩
    have longer := List.length_pos_iff.2 nonempty
    rw [trimmed, List.length_append]
    omega

theorem dropWhile_word_append {inside : Text} (words : ∀ c ∈ inside, isAsciiWord c = true)
    (stops : ∀ c ∈ rest.head?, isAsciiWord c = false) :
    (inside ++ rest).dropWhile isAsciiWord = rest := by
  rw [List.dropWhile_append_of_pos words]
  cases rest with
  | nil => rfl
  | cons c more => exact List.dropWhile_cons_of_neg (by simp [stops c rfl])

/-- What starts with a letter or an underscore starts with a name. -/
theorem exists_name (verbatim : Bool) {c : Char} (starts : isWordStart c = true) (more : Text) :
    ∃ name : Name ascii,
      (if verbatim then ['@'] else []) ++ c :: more =
        name.text ++ more.dropWhile isAsciiWord ∧
      ∀ d ∈ (more.dropWhile isAsciiWord).head?, isAsciiWord d = false := by
  refine ⟨⟨verbatim, c, more.takeWhile isAsciiWord, starts,
    fun d member => List.mem_takeWhile_imp member⟩, ?_, fun d first => ?_⟩
  · rw [Name.text, List.append_assoc, List.cons_append, List.takeWhile_append_dropWhile]
  · have stops := List.head?_dropWhile_not isAsciiWord more
    rw [first] at stops
    simpa using stops

theorem afterClassName?_eq_some_iff : afterClassName? s = some rest ↔
    ∃ name : Name ascii, s = name.text ++ rest ∧ ∀ c ∈ rest.head?, isAsciiWord c = false := by
  constructor
  · intro found
    unfold afterClassName? at found
    split at found
    case h_1 c more =>
      obtain ⟨starts, same⟩ := Option.ite_none_right_eq_some.1 found
      obtain rfl := Option.some.inj same
      exact exists_name true starts more
    case h_2 c more _ =>
      obtain ⟨starts, same⟩ := Option.ite_none_right_eq_some.1 found
      obtain rfl := Option.some.inj same
      exact exists_name false starts more
    case h_3 => cases found
  · rintro ⟨⟨verbatim, first, inside, starts, words⟩, rfl, stops⟩
    change isWordStart first = true at starts
    have dropped := dropWhile_word_append words stops
    cases verbatim with
    | true =>
        change (if isWordStart first = true then some ((inside ++ rest).dropWhile isAsciiWord)
          else none) = some rest
        rw [if_pos starts, dropped]
    | false =>
        have noSign : first ≠ '@' := by
          rintro rfl
          exact absurd starts (by decide)
        change afterClassName? (first :: (inside ++ rest)) = some rest
        unfold afterClassName?
        split
        case h_1 same => exact absurd (List.cons.inj same).1 noSign
        case h_2 same =>
          obtain ⟨rfl, rfl⟩ := List.cons.inj same
          rw [if_pos starts, dropped]
        case h_3 same => cases same

/-- A name starts with something visible. -/
theorem head?_name_append {alphabet : Alphabet} (name : Name alphabet) (rest : Text) :
    ∀ c ∈ (name.text ++ rest).head?, isBlank c = false := by
  obtain ⟨verbatim, first, inside, starts, -⟩ := name
  intro c head
  cases verbatim with
  | true =>
      obtain rfl := Option.some.inj head
      decide
  | false =>
      obtain rfl := Option.some.inj head
      exact alphabet.visible _ (alphabet.inside_of_starts _ starts)

theorem splitClass?_eq_some_iff {head tail : Text} :
    splitClass? s = some (head, tail) ↔
      ∃ (keywords : Keywords) (name : Name ascii), s = keywords.text ++ (name.text ++ tail) ∧
        head = keywords.text ∧ ∀ c ∈ tail.head?, isAsciiWord c = false := by
  have step : splitClass? s = some (head, tail) ↔ ∃ behind,
      afterSpacedWord? "partial".toList s = some behind ∧ ∃ name,
        afterSpacedWord? "class".toList behind = some name ∧ ∃ a,
          afterClassName? name = some a ∧ s.take (s.length - name.length) = head ∧ a = tail := by
    simp only [splitClass?, Option.bind_eq_bind, Option.bind_eq_some_iff, Option.pure_def,
      Option.some.injEq, Prod.mk.injEq]
  simp only [step, afterSpacedWord?_eq_some_iff, afterClassName?_eq_some_iff]
  constructor
  · rintro ⟨_, ⟨first, rfl, -⟩, _, ⟨second, rfl, -⟩, a, ⟨name, rfl, stops⟩, front, same⟩
    obtain ⟨keywords, rfl, rfl⟩ : ∃ keywords : Keywords, keywords.first = first ∧
      keywords.second = second := ⟨⟨first, second⟩, rfl, rfl⟩
    rw [← keywords.text_append, List.length_append, Nat.add_sub_cancel, List.take_left] at front
    rw [← keywords.text_append, ← same]
    exact ⟨keywords, name, rfl, front.symm, stops⟩
  · rintro ⟨keywords, name, rfl, rfl, stops⟩
    have visible := head?_name_append name tail
    refine ⟨_, ⟨keywords.first, keywords.text_append _, ?_⟩, _, ⟨keywords.second, rfl, visible⟩, tail,
      ⟨name, rfl, stops⟩, ?_, rfl⟩
    · rintro c ⟨⟩
      decide
    · rw [List.length_append, Nat.add_sub_cancel, List.take_left]

end Pieces

end MigrationSquash.Designer
