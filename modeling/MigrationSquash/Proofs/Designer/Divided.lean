import MigrationSquash.Proofs.Designer.Found

/-!
# Divided designer files

A designer file, divided around its attribute and the declaration of its class.  Main statement: an
identity is put into both marks, and nothing else changes, if the name of the class is ASCII, no
quote stands in the argument of the attribute, and nothing before either of them reads like it.
-/

set_option autoImplicit false

namespace MigrationSquash.Designer

open Code (Alphabet)
open Code.Directive (Name)
open Text (isAsciiWord isBlank isWord isWordBoundary)

variable {alphabet : Alphabet}

/-- The text of a designer file, divided around its attribute and the declaration of its class, in
the order in which they stand.  The declaration starts a word, and its name is a whole one. -/
structure Marked (alphabet : Alphabet) where
  before : Text
  between : Text
  after : Text
  brackets : Brackets
  argument : Text
  keywords : Keywords
  name : Name alphabet
  classFirst : Bool
  apart : ∀ c ∈ (if classFirst then before else between).getLast?, isWord c = false
  whole : ∀ c ∈ (if classFirst then between else after).head?, alphabet.inside c = false

/-- What does not stand in a name does not stand in an ASCII word. -/
theorem not_isAsciiWord {c : Char} (outside : alphabet.inside c = false) : isAsciiWord c = false := by
  rw [Bool.eq_false_iff]
  intro word
  rw [alphabet.inside_ascii c (Text.lt_of_isAsciiWord word), word] at outside
  cases outside

namespace Marked

variable (marked : Marked alphabet) (argument name : Text)

/-- The text with the given argument and name. -/
def text : Text :=
  if marked.classFirst then
    marked.before ++ (marked.keywords.text ++ (name ++ (marked.between ++
      (marked.brackets.head ++ (argument ++ (marked.brackets.foot ++ marked.after))))))
  else
    marked.before ++ (marked.brackets.head ++ (argument ++ (marked.brackets.foot ++
      (marked.between ++ (marked.keywords.text ++ (name ++ marked.after))))))

def source : Text := marked.text marked.argument marked.name.text

def beforeAttribute : Text :=
  if marked.classFirst then
    marked.before ++ (marked.keywords.text ++ (name ++ marked.between))
  else marked.before

def behindAttribute : Text :=
  if marked.classFirst then marked.after
  else marked.between ++ (marked.keywords.text ++ (name ++ marked.after))

def beforeClass : Text :=
  if marked.classFirst then marked.before
  else marked.before ++ (marked.brackets.head ++ (argument ++
    (marked.brackets.foot ++ marked.between)))

def behindClass : Text :=
  if marked.classFirst then
    marked.between ++ (marked.brackets.head ++ (argument ++
      (marked.brackets.foot ++ marked.after)))
  else marked.after

theorem text_eq_attribute : marked.text argument name =
    marked.beforeAttribute name ++ (marked.brackets.head ++ (argument ++
      (marked.brackets.foot ++ marked.behindAttribute name))) := by
  rw [text, beforeAttribute, behindAttribute]
  split <;> simp only [List.append_assoc]

theorem text_eq_class : marked.text argument name =
    marked.beforeClass argument ++ (marked.keywords.text ++ (name ++
      marked.behindClass argument)) := by
  rw [text, beforeClass, behindClass]
  split <;> simp only [List.append_assoc]

/-- The argument and the name are what is read first, and all of it.  The argument is left out where
the declaration is looked for, as another one stands there by then. -/
structure Readable : Prop where
  noQuote : '"' ∉ marked.argument
  nameAscii : ∀ c ∈ marked.name.text, c.val.toNat < 0x80
  noAttribute : ¬ Earlier ReadsAttribute none (marked.beforeAttribute marked.name.text)
    (marked.brackets.head ++ (marked.argument ++ (marked.brackets.foot ++
      marked.behindAttribute marked.name.text)))
  noClass : ¬ Earlier ReadsClass none (marked.beforeClass [])
    (marked.keywords.text ++ (marked.name.text ++ marked.behindClass []))

/-- Where the declaration stands behind the attribute, another one can only start before the
attribute or between the two. -/
theorem earlier_behind_attribute_iff {argument : Text} (visible : ∀ c ∈ argument, isBlank c = false)
    (rest : Text) :
    Earlier ReadsClass none (marked.before ++ (marked.brackets.head ++ (argument ++
        (marked.brackets.foot ++ marked.between)))) rest ↔
      Earlier ReadsClass none marked.before [] ∨
        Earlier ReadsClass (some ']') marked.between rest := by
  have bracket : Stops '[' := by decide
  have quote : Stops '"' := by decide
  have first : Earlier ReadsClass none marked.before ((marked.brackets.head ++ (argument ++
      (marked.brackets.foot ++ marked.between))) ++ rest) ↔
        Earlier ReadsClass none marked.before [] := by
    refine earlier_congr fun left c more _ => ?_
    rw [List.append_nil, ← List.cons_append]
    exact readsClass_append_iff bracket (List.cons_ne_nil c more)
  have inArgument (left : Option Char) : ¬ Earlier ReadsClass left argument
      ((marked.brackets.foot ++ marked.between) ++ rest) := by
    refine not_earlier fun left c more suffix reads => ?_
    rw [← List.cons_append] at reads
    refine not_readsClass (fun d member => visible d (suffix.subset member))
      ((readsClass_append_iff quote (List.cons_ne_nil c more)).1 reads)
  have inHead (left : Option Char) (behind : Text) :
      ¬ Earlier ReadsClass left marked.brackets.head behind :=
    not_earlier_readsClass (marked.brackets.not_mem_head (by decide) (by decide))
  have inFoot (left : Option Char) (behind : Text) :
      ¬ Earlier ReadsClass left marked.brackets.foot behind :=
    not_earlier_readsClass (marked.brackets.not_mem_foot (by decide) (by decide))
  have stop (left : Option Char) : marked.brackets.foot.getLast?.or left = some ']' := by
    rw [marked.brackets.getLast?_foot]
    rfl
  rw [earlier_append_iff, earlier_append_iff, earlier_append_iff, earlier_append_iff, first, stop]
  simp only [inHead, inArgument, inFoot, false_or]

/-- Which argument there is does not matter where the declaration is looked for, if it has no
blanks. -/
theorem earlier_class_iff {argument : Text} (visible : ∀ c ∈ argument, isBlank c = false) :
    Earlier ReadsClass none (marked.beforeClass argument)
        (marked.keywords.text ++ (marked.name.text ++ marked.behindClass argument)) ↔
      Earlier ReadsClass none (marked.beforeClass [])
        (marked.keywords.text ++ (marked.name.text ++ marked.behindClass [])) := by
  cases order : marked.classFirst with
  | true =>
      simp only [beforeClass, behindClass, order, if_true]
      refine earlier_congr fun left c more _ => ?_
      rw [← List.cons_append, ← List.cons_append,
        readsClass_before_class_iff _ _ (List.cons_ne_nil c more),
        readsClass_before_class_iff _ _ (List.cons_ne_nil c more)]
  | false =>
      simp only [beforeClass, behindClass, order, Bool.false_eq_true, if_false]
      rw [marked.earlier_behind_attribute_iff visible,
        marked.earlier_behind_attribute_iff (List.forall_mem_nil _)]

/-- The declaration starts a word, whichever argument there is. -/
theorem not_isWord_before (argument : Text) :
    ∀ c ∈ (marked.beforeClass argument).getLast?, isWord c = false := by
  intro c last
  have apart := marked.apart c
  rw [beforeClass] at last
  cases order : marked.classFirst with
  | true =>
      simp only [order, if_true] at apart last
      exact apart last
  | false =>
      simp only [order, Bool.false_eq_true, if_false] at apart last
      rw [← List.append_assoc, ← List.append_assoc, ← List.append_assoc, List.getLast?_append,
        List.getLast?_append, marked.brackets.getLast?_foot] at last
      cases behind : marked.between.getLast? with
      | some d =>
          rw [behind] at last
          exact apart (behind.trans last)
      | none =>
          rw [behind] at last
          obtain rfl := Option.some.inj last
          decide

/-- The name of the class is a whole one, whichever argument there is. -/
theorem not_inside_behind (argument : Text) :
    ∀ c ∈ (marked.behindClass argument).head?, alphabet.inside c = false := by
  intro c first
  have whole := marked.whole c
  rw [behindClass] at first
  cases order : marked.classFirst with
  | true =>
      simp only [order, if_true] at whole first
      cases between : marked.between with
      | cons d more =>
          rw [between] at first whole
          exact whole first
      | nil =>
          rw [between] at first
          obtain rfl := Option.some.inj first
          rw [alphabet.inside_ascii _ (by decide)]
          decide
  | false =>
      simp only [order, Bool.false_eq_true, if_false] at whole first
      exact whole first

namespace Readable

variable {marked} (readable : marked.Readable)
include readable

theorem retargetAttribute_source (id : Text) :
    retargetAttribute id marked.source = marked.text id marked.name.text := by
  have found : attributeAt? ((marked.beforeAttribute marked.name.text).getLast?.or none)
      (marked.brackets.head ++ (marked.argument ++ (marked.brackets.foot ++
        marked.behindAttribute marked.name.text))) =
          some (marked.brackets.head,
            marked.brackets.foot ++ marked.behindAttribute marked.name.text) :=
    splitAttribute?_eq_some_iff.2 ⟨marked.brackets, marked.argument, _, readable.noQuote, rfl, rfl, rfl⟩
  rw [retargetAttribute_eq id _ none, source, text_eq_attribute, text_eq_attribute,
    replaceFirst_append isSome_attributeAt?_iff readable.noAttribute,
    replaceFirst_of_some (by rintro ⟨⟩) found]

theorem exists_asciiName : ∃ name : Name ascii, name.text = marked.name.text := by
  have small := readable.nameAscii
  generalize marked.name = name at small
  obtain ⟨verbatim, first, rest, starts, inside⟩ := name
  have firstSmall := small first (List.mem_append_right _ List.mem_cons_self)
  have restSmall : ∀ c ∈ rest, c.val.toNat < 0x80 := fun c member =>
    small c (List.mem_append_right _ (List.mem_cons_of_mem first member))
  refine ⟨⟨verbatim, first, rest, ?_, fun c member => ?_⟩, rfl⟩
  · exact (alphabet.starts_ascii first firstSmall).symm.trans starts
  · exact (alphabet.inside_ascii c (restSmall c member)).symm.trans (inside c member)

theorem retargetClass_text {argument : Text} (visible : ∀ c ∈ argument, isBlank c = false)
    (name : Text) : retargetClass name none (marked.text argument marked.name.text) =
      marked.text argument name := by
  have unread := mt (marked.earlier_class_iff visible).1 readable.noClass
  obtain ⟨asciiName, same⟩ := readable.exists_asciiName
  have boundary : isWordBoundary ((marked.beforeClass argument).getLast?.or none)
      (marked.keywords.text ++ (marked.name.text ++ marked.behindClass argument)).head? = true := by
    have outside : ((marked.beforeClass argument).getLast?.or none).any isWord = false := by
      have apart := marked.not_isWord_before argument
      cases last : (marked.beforeClass argument).getLast? with
      | none => rfl
      | some c => exact apart c last
    have letter : isWord 'p' = true := by decide
    rw [isWordBoundary, outside, Keywords.text_append]
    exact (Bool.false_bne _).trans letter
  have stops : ∀ c ∈ (marked.behindClass argument).head?, isAsciiWord c = false := fun c first =>
    not_isAsciiWord (marked.not_inside_behind argument c first)
  have found : classAt? ((marked.beforeClass argument).getLast?.or none)
      (marked.keywords.text ++ (marked.name.text ++ marked.behindClass argument)) =
        some (marked.keywords.text, marked.behindClass argument) := by
    rw [classAt?, if_pos boundary]
    exact splitClass?_eq_some_iff.2 ⟨marked.keywords, asciiName, by rw [same], rfl, stops⟩
  have nonempty : marked.keywords.text ++ (marked.name.text ++ marked.behindClass argument) ≠ [] := by
    rw [Keywords.text_append]
    rintro ⟨⟩
  rw [retargetClass_eq, text_eq_class, text_eq_class,
    replaceFirst_append isSome_classAt?_iff unread, replaceFirst_of_some nonempty found]

theorem retarget_source {id : MigrationId} (visible : ∀ c ∈ id.toText, isBlank c = false) :
    retarget marked.source id = marked.text id.toText id.name := by
  rw [retarget, readable.retargetAttribute_source, readable.retargetClass_text visible]
  rfl

end Readable

end Marked

end MigrationSquash.Designer
