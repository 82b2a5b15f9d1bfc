import MigrationSquash.Proofs.Designer.Marks

/-!
# Where marks are found

The first place where a pattern reads something is the one where a token is replaced.  Whether a
text reads like the declaration of a class is settled by a beginning of it that ends with the first
letter of the name, so what stands behind other characters does not matter.
-/

set_option autoImplicit false

namespace MigrationSquash.Designer

open Code (Alphabet)
open Code.Directive (Name)
open Text (isAsciiWord isBlank isWordBoundary isWordStart)

/-- The text with another token at the first place where the pattern splits it around one; `left`
stands before the text. -/
def replaceFirst (split? : Option Char → Text → Option (Text × Text)) (new : Text) :
    Option Char → Text → Text
  | _, [] => []
  | left, c :: rest =>
      match split? left (c :: rest) with
      | some (head, tail) => head ++ (new ++ tail)
      | none => c :: replaceFirst split? new (some c) rest

def attributeAt? (_ : Option Char) (s : Text) : Option (Text × Text) := splitAttribute? s

def classAt? (left : Option Char) (s : Text) : Option (Text × Text) :=
  if isWordBoundary left s.head? then splitClass? s else none

theorem retargetAttribute_eq (id s : Text) (left : Option Char) :
    retargetAttribute id s = replaceFirst attributeAt? id left s := by
  induction s generalizing left with
  | nil => rfl
  | cons c rest ih =>
      rw [retargetAttribute, replaceFirst, attributeAt?, ih (some c)]
      cases splitAttribute? (c :: rest) with
      | none => rfl
      | some parts => exact List.append_assoc _ _ _

theorem retargetClass_eq (name s : Text) (left : Option Char) :
    retargetClass name left s = replaceFirst classAt? name left s := by
  induction s generalizing left with
  | nil => rfl
  | cons c rest ih =>
      rw [retargetClass, replaceFirst, classAt?, ih (some c), List.head?_cons]
      cases if isWordBoundary left (some c) then splitClass? (c :: rest) else none with
      | none => rfl
      | some parts => exact List.append_assoc _ _ _

/-- Something is read that starts in `front`; `left` stands before it and `rest` behind it. -/
def Earlier (reads : Option Char → Text → Prop) : Option Char → Text → Text → Prop
  | _, [], _ => False
  | left, c :: front, rest =>
      reads left (c :: (front ++ rest)) ∨ Earlier reads (some c) front rest

theorem or_getLast?_cons (left : Option Char) (c : Char) (front : Text) :
    (c :: front).getLast?.or left = front.getLast?.or (some c) := by
  rw [List.getLast?_cons]
  cases front.getLast? <;> rfl

section Earlier

variable {reads : Option Char → Text → Prop} {left : Option Char} {front back rest : Text}

theorem earlier_append_iff : Earlier reads left (front ++ back) rest ↔
    Earlier reads left front (back ++ rest) ∨
      Earlier reads (front.getLast?.or left) back rest := by
  induction front generalizing left with
  | nil => exact ⟨Or.inr, fun either => either.resolve_left id⟩
  | cons c more ih =>
      rw [List.cons_append, Earlier, Earlier, ih, or_getLast?_cons, List.append_assoc, or_assoc]

/-- What stands behind does not matter if it does not matter to any reading. -/
theorem earlier_congr {other : Text} (same : ∀ left c more, (c :: more) <:+ front →
    (reads left (c :: (more ++ rest)) ↔ reads left (c :: (more ++ other)))) :
    Earlier reads left front rest ↔ Earlier reads left front other := by
  induction front generalizing left with
  | nil => exact Iff.rfl
  | cons c more ih =>
      rw [Earlier, Earlier, same left c more (List.suffix_refl _),
        ih fun left d behind suffix => same left d behind (suffix.trans (List.suffix_cons c more))]

/-- Nothing is read where no reading starts. -/
theorem not_earlier (none : ∀ left c more, (c :: more) <:+ front →
    ¬ reads left (c :: (more ++ rest))) : ¬ Earlier reads left front rest := by
  induction front generalizing left with
  | nil => exact id
  | cons c more ih =>
      rintro (here | later)
      · exact none left c more (List.suffix_refl _) here
      · exact ih (fun left d behind suffix => none left d behind
          (suffix.trans (List.suffix_cons c more))) later

end Earlier

theorem replaceFirst_of_some {split? : Option Char → Text → Option (Text × Text)}
    {left : Option Char} {s head tail : Text} (nonempty : s ≠ [])
    (found : split? left s = some (head, tail)) (new : Text) :
    replaceFirst split? new left s = head ++ (new ++ tail) := by
  cases s with
  | nil => exact absurd rfl nonempty
  | cons c rest => rw [replaceFirst, found]

section First

variable {split? : Option Char → Text → Option (Text × Text)} {reads : Option Char → Text → Prop}
  (spec : ∀ left s, (split? left s).isSome = true ↔ reads left s)
include spec

/-- What stands before the first place is kept. -/
theorem replaceFirst_append {left : Option Char} {front rest : Text}
    (none : ¬ Earlier reads left front rest) (new : Text) :
    replaceFirst split? new left (front ++ rest) =
      front ++ replaceFirst split? new (front.getLast?.or left) rest := by
  induction front generalizing left with
  | nil => rfl
  | cons c more ih =>
      rw [Earlier, not_or, ← spec, Bool.not_eq_true, Option.isSome_eq_false_iff,
        Option.isNone_iff_eq_none] at none
      rw [List.cons_append, replaceFirst, none.1, or_getLast?_cons]
      exact congrArg (c :: ·) (ih none.2)

/-- Either nothing is read, or the token at the first place is replaced. -/
theorem replaceFirst_cases (left : Option Char) (s : Text) :
    (∀ new, replaceFirst split? new left s = s) ∨
      ∃ front rest head tail, s = front ++ rest ∧ ¬ Earlier reads left front rest ∧
        split? (front.getLast?.or left) rest = some (head, tail) ∧
        ∀ new, replaceFirst split? new left s = front ++ (head ++ (new ++ tail)) := by
  induction s generalizing left with
  | nil => exact .inl fun _ => rfl
  | cons c rest ih =>
      cases here : split? left (c :: rest) with
      | some parts =>
          refine .inr ⟨[], c :: rest, parts.1, parts.2, rfl, id, here, fun new => ?_⟩
          rw [replaceFirst, here]
          rfl
      | none =>
          have unread : ¬ reads left (c :: rest) := by
            rw [← spec, here]
            exact Bool.false_ne_true
          rcases ih (some c) with same | ⟨front, behind, head, tail, rfl, none, found, replaced⟩
          · refine .inl fun new => ?_
            rw [replaceFirst, here]
            exact congrArg (c :: ·) (same new)
          · refine .inr ⟨c :: front, behind, head, tail, rfl, ?_, ?_, fun new => ?_⟩
            · exact not_or.2 ⟨unread, none⟩
            · rwa [or_getLast?_cons]
            · rw [replaceFirst, here]
              exact congrArg (c :: ·) (replaced new)

end First

/-- An attribute that names a migration, read as far as its argument has no quote. -/
def ReadsAttribute (_ : Option Char) (s : Text) : Prop :=
  ∃ (brackets : Brackets) (argument rest : Text), '"' ∉ argument ∧
    s = brackets.head ++ (argument ++ (brackets.foot ++ rest))

/-- The beginning of a declaration up to the first letter of the name. -/
structure Beginning where
  keywords : Keywords
  verbatim : Bool
  first : Char
  starts : isWordStart first = true

def Beginning.text (beginning : Beginning) : Text :=
  beginning.keywords.text ++ ((if beginning.verbatim then ['@'] else []) ++ [beginning.first])

/-- A declaration that starts a word. -/
def ReadsClass (left : Option Char) (s : Text) : Prop :=
  isWordBoundary left s.head? = true ∧ ∃ beginning : Beginning, beginning.text <+: s

theorem isSome_attributeAt?_iff (left : Option Char) (s : Text) :
    (attributeAt? left s).isSome = true ↔ ReadsAttribute left s := by
  rw [Option.isSome_iff_exists]
  constructor
  · rintro ⟨⟨head, tail⟩, found⟩
    obtain ⟨brackets, argument, rest, absent, whole, -, rfl⟩ := splitAttribute?_eq_some_iff.1 found
    exact ⟨brackets, argument, rest, absent, whole⟩
  · rintro ⟨brackets, argument, rest, absent, whole⟩
    exact ⟨_, splitAttribute?_eq_some_iff.2 ⟨brackets, argument, rest, absent, whole, rfl, rfl⟩⟩

theorem Beginning.text_append (beginning : Beginning) (more : Text) : beginning.text ++ more =
    beginning.keywords.text ++
      ((if beginning.verbatim then ['@'] else []) ++ beginning.first :: more) := by
  rw [text, List.append_assoc, List.append_assoc, List.singleton_append]

theorem isSome_classAt?_iff (left : Option Char) (s : Text) :
    (classAt? left s).isSome = true ↔ ReadsClass left s := by
  rw [classAt?, ReadsClass]
  cases isWordBoundary left s.head? with
  | false => simp
  | true =>
      rw [if_pos rfl, Option.isSome_iff_exists, and_iff_right rfl]
      constructor
      · rintro ⟨⟨head, tail⟩, found⟩
        obtain ⟨keywords, name, rfl, -, -⟩ := splitClass?_eq_some_iff.1 found
        refine ⟨⟨keywords, name.verbatim, name.first, name.starts⟩, name.rest ++ tail, ?_⟩
        rw [Beginning.text_append, Name.text, List.append_assoc, List.cons_append]
      · rintro ⟨beginning, more, rfl⟩
        obtain ⟨name, split, stops⟩ := exists_name beginning.verbatim beginning.starts more
        exact ⟨_, splitClass?_eq_some_iff.2
          ⟨beginning.keywords, name, by rw [Beginning.text_append, split], rfl, stops⟩⟩

/-- Either there is no attribute, or the argument of the first one is replaced. -/
theorem retargetAttribute_cases (s : Text) :
    (∀ id, retargetAttribute id s = s) ∨
      ∃ (front : Text) (brackets : Brackets) (argument rest : Text), '"' ∉ argument ∧
        s = front ++ (brackets.head ++ (argument ++ (brackets.foot ++ rest))) ∧
        ¬ Earlier ReadsAttribute none front
          (brackets.head ++ (argument ++ (brackets.foot ++ rest))) ∧
        ∀ id, retargetAttribute id s =
          front ++ (brackets.head ++ (id ++ (brackets.foot ++ rest))) := by
  simp only [retargetAttribute_eq _ s none]
  rcases replaceFirst_cases isSome_attributeAt?_iff none s with
    same | ⟨front, behind, head, tail, whole, unread, found, replaced⟩
  · exact .inl same
  · obtain ⟨brackets, argument, rest, absent, split, rfl, rfl⟩ := splitAttribute?_eq_some_iff.1 found
    exact .inr ⟨front, brackets, argument, rest, absent, split ▸ whole, split ▸ unread, replaced⟩

/-- Either there is no declaration, or the name in the first one is replaced. -/
theorem retargetClass_cases (s : Text) :
    (∀ name, retargetClass name none s = s) ∨
      ∃ (front : Text) (keywords : Keywords) (name : Name ascii) (rest : Text),
        s = front ++ (keywords.text ++ (name.text ++ rest)) ∧
        ¬ Earlier ReadsClass none front (keywords.text ++ (name.text ++ rest)) ∧
        ∀ new, retargetClass new none s = front ++ (keywords.text ++ (new ++ rest)) := by
  simp only [retargetClass_eq _ s none]
  rcases replaceFirst_cases isSome_classAt?_iff none s with
    same | ⟨front, behind, head, tail, whole, unread, found, replaced⟩
  · exact .inl same
  · rw [classAt?] at found
    obtain ⟨-, found⟩ := Option.ite_none_right_eq_some.1 found
    obtain ⟨keywords, name, split, rfl, -⟩ := splitClass?_eq_some_iff.1 found
    exact .inr ⟨front, keywords, name, tail, split ▸ whole, split ▸ unread, replaced⟩

section Beginning

variable {left : Option Char} {front back rest : Text}

theorem head?_of_readsClass {s : Text} (reads : ReadsClass left s) : s.head? = some 'p' := by
  obtain ⟨-, beginning, more, rfl⟩ := reads
  obtain ⟨tail, keywords, -⟩ := beginning.keywords.exists_text_eq_cons
  rw [Beginning.text_append, keywords]
  rfl

/-- No declaration starts among other characters. -/
theorem not_earlier_readsClass (absent : 'p' ∉ front) : ¬ Earlier ReadsClass left front rest := by
  refine not_earlier fun left c more suffix reads => ?_
  have first := Option.some.inj (head?_of_readsClass reads)
  exact absent (first ▸ suffix.subset List.mem_cons_self)

/-- A character that is neither a blank nor in a word nor an `@`. -/
def Stops (c : Char) : Prop := isBlank c = false ∧ isAsciiWord c = false ∧ c ≠ '@'

instance (c : Char) : Decidable (Stops c) := inferInstanceAs (Decidable (_ ∧ _ ∧ _))

theorem not_mem_sign {c : Char} (noSign : c ≠ '@') (verbatim : Bool) :
    c ∉ if verbatim then ['@'] else [] := by
  cases verbatim with
  | true => exact fun member => noSign (List.mem_singleton.1 member)
  | false => exact List.not_mem_nil

theorem not_mem_beginning {c : Char} (stops : Stops c) (beginning : Beginning) :
    c ∉ beginning.text := by
  obtain ⟨visible, noWord, noSign⟩ := stops
  have inWord {word : Text} (words : word.all isAsciiWord = true) : c ∉ word := fun member =>
    Bool.noConfusion (noWord.symm.trans (List.all_eq_true.1 words c member))
  have first : c ≠ beginning.first := by
    rintro rfl
    exact Bool.noConfusion (noWord.symm.trans (ascii.inside_of_starts _ beginning.starts))
  rw [Beginning.text]
  simp only [List.mem_append, List.mem_singleton, not_or]
  exact ⟨beginning.keywords.not_mem_text visible ⟨inWord (by decide), inWord (by decide)⟩,
    not_mem_sign noSign _, first⟩

theorem prefix_of_not_mem {c : Char} {start : Text} (absent : c ∉ start)
    (starts : start <+: front ++ c :: rest) : start <+: front := by
  obtain ⟨more, split⟩ := starts
  rcases List.append_eq_append_iff.1 split with ⟨behind, whole, -⟩ | ⟨behind, whole, others⟩
  · exact ⟨behind, whole.symm⟩
  · cases behind with
    | nil => exact ⟨[], by rw [whole, List.append_nil, List.append_nil]⟩
    | cons d behind =>
        obtain rfl := (List.cons.inj others).1
        exact absurd (by rw [whole]; simp) absent

theorem head?_append_of_ne_nil (nonempty : front ≠ []) : (front ++ rest).head? = front.head? := by
  cases front with
  | nil => exact absurd rfl nonempty
  | cons c more => rfl

/-- What stands behind a character that stops words does not matter. -/
theorem readsClass_append_iff {c : Char} (stops : Stops c) (nonempty : front ≠ []) :
    ReadsClass left (front ++ c :: rest) ↔ ReadsClass left front := by
  rw [ReadsClass, ReadsClass, head?_append_of_ne_nil nonempty]
  refine and_congr_right fun _ => exists_congr fun beginning => ⟨fun starts => ?_, fun starts => ?_⟩
  · exact prefix_of_not_mem (not_mem_beginning stops beginning) starts
  · exact starts.trans (List.prefix_append _ _)

/-- A declaration holds a blank. -/
theorem not_readsClass (visible : ∀ c ∈ front, isBlank c = false) : ¬ ReadsClass left front := by
  rintro ⟨-, beginning, starts⟩
  obtain ⟨c, member, blank⟩ := beginning.keywords.exists_isBlank
  have inside := starts.subset (List.mem_append_left _ member)
  exact Bool.noConfusion (blank.symm.trans (visible c inside))

/-- A second `p` in the beginning of a declaration can only be its last character. -/
theorem not_prefix_beginning (beginning : Beginning) {c d : Char} :
    ¬ c :: (front ++ 'p' :: d :: rest) <+: beginning.text := by
  rintro ⟨more, split⟩
  obtain ⟨tail, keywords, once⟩ := beginning.keywords.exists_text_eq_cons
  have whole : beginning.text =
      'p' :: ((tail ++ if beginning.verbatim then ['@'] else []) ++ [beginning.first]) := by
    rw [Beginning.text, keywords, List.append_assoc]
    rfl
  have absent : 'p' ∉ tail ++ if beginning.verbatim then ['@'] else [] := fun member =>
    (List.mem_append.1 member).elim once (not_mem_sign (by decide) _)
  obtain ⟨others, last, ends⟩ : ∃ others last, d :: (rest ++ more) = others ++ [last] :=
    (List.eq_nil_or_concat' (d :: (rest ++ more))).resolve_left (List.cons_ne_nil _ _)
  have regrouped : c :: (front ++ 'p' :: d :: rest) ++ more =
      c :: ((front ++ 'p' :: others) ++ [last]) := by
    simp only [List.cons_append, List.append_assoc, ends]
  rw [whole, regrouped] at split
  have same := (List.append_inj' (List.cons.inj split).2 rfl).1
  exact absent (by rw [← same]; simp)

/-- Nor does it matter what stands behind a declaration, as another one that starts before it would
have to end inside of it. -/
theorem readsClass_before_class_iff {alphabet : Alphabet} (keywords : Keywords)
    (name : Name alphabet) (nonempty : front ≠ []) :
    ReadsClass left (front ++ (keywords.text ++ (name.text ++ rest))) ↔
      ReadsClass left (front ++ (keywords.text ++ name.text)) := by
  rw [ReadsClass, ReadsClass, head?_append_of_ne_nil nonempty, head?_append_of_ne_nil nonempty]
  refine and_congr_right fun _ => exists_congr fun beginning => ⟨fun starts => ?_, fun starts => ?_⟩
  · have behind : front ++ (keywords.text ++ name.text) <+:
        front ++ (keywords.text ++ (name.text ++ rest)) :=
      ⟨rest, by simp only [List.append_assoc]⟩
    rcases List.prefix_or_prefix_of_prefix starts behind with inside | across
    · exact inside
    · cases front with
      | nil => exact absurd rfl nonempty
      | cons c more =>
          rw [Keywords.text_append] at across
          exact absurd across (not_prefix_beginning beginning)
  · exact starts.trans ⟨rest, by simp only [List.append_assoc]⟩

end Beginning

end MigrationSquash.Designer
