import MigrationSquash.Proofs.Designer.Divided
import MigrationSquash.Proofs.Designer.Probe
import MigrationSquash.Proofs.Import.Collected

/-!
# Retargeted designer files

Main statement: every identity can be put into both marks of a designer file, and nothing else
changes, exactly if the name of the class is ASCII, no quote stands in the argument of the attribute,
and nothing before either of them reads like it.  For the converse an identity is put in that tells
where it stands.
-/

set_option autoImplicit false

namespace MigrationSquash.Designer

open Code (Alphabet)
open Code.Directive (Name)
open Text (isAsciiWord isBlank)

/-- Only what an `@` is put before is no part of a word. -/
theorem inside_of_text_eq {alphabet : Alphabet} (name : Name alphabet) {front more : Text} {c : Char}
    (nonempty : front ≠ []) (split : name.text = front ++ c :: more) : alphabet.inside c = true := by
  have inWord {word : Text} (same : name.first :: name.rest = word ++ c :: more) :
      alphabet.inside c = true := by
    have member : c ∈ name.first :: name.rest := by
      rw [same]
      simp
    rcases List.mem_cons.1 member with rfl | inRest
    · exact name.inside_first
    · exact name.inside c inRest
  rw [Name.text] at split
  cases verbatim : name.verbatim with
  | false =>
      rw [verbatim] at split
      exact inWord split
  | true =>
      rw [verbatim] at split
      obtain ⟨d, word, rfl⟩ := List.exists_cons_of_ne_nil nonempty
      exact inWord (List.cons.inj split).2

/-- The mark that is read first of the attribute and the one of the declaration stand apart: the
quotes around the argument separate them. -/
theorem marks_apart {front back classFront classBack id : Text} {brackets : Brackets}
    {keywords : Keywords} {name : Name ascii} (visible : ∀ c ∈ id, isBlank c = false)
    (same : front ++ (brackets.head ++ (id ++ (brackets.foot ++ back))) =
      classFront ++ (keywords.text ++ (name.text ++ classBack))) :
    (∃ between, between.getLast? = some '"' ∧
        front ++ brackets.head = classFront ++ (keywords.text ++ (name.text ++ between)) ∧
        classBack = between ++ (id ++ (brackets.foot ++ back))) ∨
      ∃ between, between.head? = some '"' ∧
        classFront = front ++ (brackets.head ++ (id ++ between)) ∧
        brackets.foot ++ back = between ++ (keywords.text ++ (name.text ++ classBack)) := by
  have absent : '"' ∉ keywords.text ++ name.text := fun member =>
    (List.mem_append.1 member).elim (keywords.not_mem_text (by decide) (by decide))
      fun inName => absurd (name.mem_text inName) (by decide)
  obtain ⟨init, headEnds⟩ := brackets.exists_head_eq_concat
  obtain ⟨foot, footStarts⟩ : ∃ foot, brackets.foot = '"' :: foot := ⟨_, rfl⟩
  have atFirst : classFront ++ ((keywords.text ++ name.text) ++ classBack) =
      (front ++ init) ++ '"' :: (id ++ (brackets.foot ++ back)) := by
    rw [headEnds] at same
    simpa only [List.append_assoc, List.singleton_append] using same.symm
  -- The quote before the argument comes first, and if the declaration is behind it, the other one.
  rcases before_or_behind absent atFirst with ⟨between, ends, rfl⟩ | ⟨behind, rfl, rest⟩
  · refine .inl ⟨between ++ ['"'], List.getLast?_concat, ?_, by simp⟩
    rw [headEnds, ← List.append_assoc, ends]
    simp only [List.append_assoc]
  · have atSecond : behind ++ ((keywords.text ++ name.text) ++ classBack) =
        id ++ '"' :: (foot ++ back) := by
      rw [← rest, footStarts, List.cons_append]
    rcases before_or_behind absent atSecond with ⟨more, inId, -⟩ | ⟨between, rfl, split⟩
    · -- An identity has no blanks, so the declaration is not in the argument.
      obtain ⟨c, member, blank⟩ := keywords.exists_isBlank
      have inside : c ∈ id := by
        rw [inId]
        simp only [List.mem_append]
        exact .inr (.inl (.inl member))
      exact Bool.noConfusion (blank.symm.trans (visible c inside))
    · refine .inr ⟨'"' :: between, rfl, ?_, ?_⟩
      · rw [headEnds]
        simp only [List.append_assoc, List.singleton_append]
      · rw [footStarts, List.cons_append, split]
        simp only [List.cons_append, List.append_assoc]


/-- The marks that are read in a text, the declaration once an identity has been put into the
attribute. -/
structure ReadMarks (source id : Text) where
  front : Text
  brackets : Brackets
  argument : Text
  rest : Text
  classFront : Text
  keywords : Keywords
  name : Name ascii
  classRest : Text
  noQuote : '"' ∉ argument
  source_eq : source = front ++ (brackets.head ++ (argument ++ (brackets.foot ++ rest)))
  noAttribute : ¬ Earlier ReadsAttribute none front
    (brackets.head ++ (argument ++ (brackets.foot ++ rest)))
  retargeted : front ++ (brackets.head ++ (id ++ (brackets.foot ++ rest))) =
    classFront ++ (keywords.text ++ (name.text ++ classRest))
  noClass : ¬ Earlier ReadsClass none classFront (keywords.text ++ (name.text ++ classRest))

namespace ReadMarks

/-- Where the text has grown by more than one identity, both marks have been read. -/
theorem exists_of_length {source : Text} {id : MigrationId}
    (grown : source.length + id.toText.length < (retarget source id).length) :
    ∃ marks : ReadMarks source id.toText,
      retarget source id =
        marks.classFront ++ (marks.keywords.text ++ (id.name ++ marks.classRest)) := by
  have named : id.name.length ≤ id.toText.length := by
    rw [MigrationId.toText, List.length_append, List.length_cons]
    omega
  rw [retarget, MigrationId.className] at grown ⊢
  rcases retargetAttribute_cases source with
    same | ⟨front, brackets, argument, rest, noQuote, whole, noAttribute, replaced⟩
  · rw [same] at grown
    rcases retargetClass_cases source with unchanged | ⟨front, keywords, name, rest, whole, -, replaced⟩
    · rw [unchanged] at grown
      omega
    · rw [replaced, whole] at grown
      simp only [List.length_append] at grown
      omega
  · have shorter : (retargetAttribute id.toText source).length ≤
        source.length + id.toText.length := by
      rw [replaced, whole]
      simp only [List.length_append]
      omega
    rcases retargetClass_cases (retargetAttribute id.toText source) with
      unchanged | ⟨classFront, keywords, name, classRest, split, noClass, renamed⟩
    · rw [unchanged] at grown
      omega
    · exact ⟨⟨front, brackets, argument, rest, classFront, keywords, name, classRest, noQuote, whole,
        noAttribute, (replaced _).symm.trans split, noClass⟩, renamed _⟩

end ReadMarks

namespace Marked

variable {alphabet : Alphabet} (marked : Marked alphabet)

/-- What is read is what the text is divided around. -/
structure IsRead (id beforeArgument argument beforeName name : Text) : Prop where
  beforeArgument : beforeArgument = marked.beforeAttribute marked.name.text ++ marked.brackets.head
  argument : argument = marked.argument
  beforeName : beforeName = marked.beforeClass id ++ marked.keywords.text
  name : name = marked.name.text

theorem IsRead.readable {marked : Marked alphabet} {id : Text} {marks : ReadMarks marked.source id}
    (isRead : marked.IsRead id (marks.front ++ marks.brackets.head) marks.argument
      (marks.classFront ++ marks.keywords.text) marks.name.text)
    (visible : ∀ c ∈ id, isBlank c = false) : marked.Readable := by
  obtain ⟨beforeArgument, argument, beforeName, name⟩ := isRead
  have fronts : marks.front = marked.beforeAttribute marked.name.text := by
    obtain ⟨head, split, absent⟩ := marks.brackets.exists_head_eq_cons
    obtain ⟨otherHead, otherSplit, otherAbsent⟩ := marked.brackets.exists_head_eq_cons
    rw [split, otherSplit] at beforeArgument
    exact (append_cons_inj absent otherAbsent beforeArgument).1
  have classFronts : marks.classFront = marked.beforeClass id := by
    obtain ⟨text, split, absent⟩ := marks.keywords.exists_text_eq_cons
    obtain ⟨otherText, otherSplit, otherAbsent⟩ := marked.keywords.exists_text_eq_cons
    rw [split, otherSplit] at beforeName
    exact (append_cons_inj absent otherAbsent beforeName).1
  have heads : marks.brackets.head = marked.brackets.head := by
    rw [fronts] at beforeArgument
    exact List.append_cancel_left beforeArgument
  have behind : marks.brackets.foot ++ marks.rest =
      marked.brackets.foot ++ marked.behindAttribute marked.name.text := by
    have whole : marked.text marked.argument marked.name.text = _ := marks.source_eq
    rw [text_eq_attribute, fronts, heads, argument] at whole
    exact (List.append_cancel_left (List.append_cancel_left
      (List.append_cancel_left whole))).symm
  have classBehind : marks.keywords.text ++ (marks.name.text ++ marks.classRest) =
      marked.keywords.text ++ (marked.name.text ++ marked.behindClass id) := by
    have whole := marks.retargeted
    rw [fronts, heads, behind, ← text_eq_attribute, text_eq_class, classFronts] at whole
    exact (List.append_cancel_left whole).symm
  refine ⟨argument ▸ marks.noQuote, fun c member => ?_, ?_, ?_⟩
  · rw [← name] at member
    rcases marks.name.mem_text member with rfl | inside
    · decide
    · exact Text.lt_of_isAsciiWord inside
  · have unread := marks.noAttribute
    rwa [fronts, heads, argument, behind] at unread
  · have unread := marks.noClass
    rw [classFronts, classBehind] at unread
    exact mt (marked.earlier_class_iff visible).2 unread

theorem text_name_first (order : marked.classFirst = true) (argument name : Text) :
    marked.text argument name = (marked.before ++ marked.keywords.text) ++ (name ++
      ((marked.between ++ marked.brackets.head) ++ (argument ++
        (marked.brackets.foot ++ marked.after)))) := by
  simp only [text, order, if_true, List.append_assoc]

theorem text_argument_first (order : marked.classFirst = false) (argument name : Text) :
    marked.text argument name = (marked.before ++ marked.brackets.head) ++ (argument ++
      ((marked.brackets.foot ++ (marked.between ++ marked.keywords.text)) ++
        (name ++ marked.after))) := by
  simp only [text, order, Bool.false_eq_true, if_false, List.append_assoc]

/-- No name goes on behind the name of the class. -/
theorem longest_name {name : Name ascii} {c : Char} {more : Text}
    (split : name.text = marked.name.text ++ c :: more) (argument : Text) :
    (marked.behindClass argument).head? ≠ some c := by
  intro first
  have outside := not_isAsciiWord (marked.not_inside_behind argument c first)
  obtain ⟨d, rest, named, -⟩ := marked.name.exists_cons
  have inside : isAsciiWord c = true :=
    inside_of_text_eq name (by rw [named]; rintro ⟨⟩) split
  exact Bool.noConfusion (outside.symm.trans inside)

theorem length_text_le (argument name : Text) :
    argument.length + name.length ≤ (marked.text argument name).length := by
  cases order : marked.classFirst with
  | true =>
      rw [marked.text_name_first order]
      simp only [List.length_append]
      omega
  | false =>
      rw [marked.text_argument_first order]
      simp only [List.length_append]
      omega

section Probe

variable {k : Nat} (long : marked.source.length + probeStem.length < k)
  {front middle argument back : Text} {name : Name ascii}
include long

theorem isRead_of_name_first
    (whole : front ++ (name.text ++ (middle ++ (argument ++ back))) = marked.source)
    (placed : front ++ ((probe k).name ++ (middle ++ ((probe k).toText ++ back))) =
      marked.text (probe k).toText (probe k).name)
    (noQuote : '"' ∉ argument) (quote : middle.getLast? = some '"') (ends : EndsBlank front) :
    marked.IsRead (probe k).toText (front ++ (name.text ++ middle)) argument front name.text := by
  have short := whole ▸ long
  cases order : marked.classFirst with
  | true =>
      have parts := marked.text_name_first order
      rw [source, parts] at whole
      rw [parts] at placed
      have longest (c : Char) (more : Text) (split : name.text = marked.name.text ++ c :: more) :
          (marked.between ++ marked.brackets.head).head? ≠ some c := by
        have outside := marked.longest_name split []
        rwa [behindClass, if_pos order, ← List.append_assoc, head?_append_of_ne_nil] at outside
        exact List.append_ne_nil_of_right_ne_nil _ (by rintro ⟨⟩)
      obtain ⟨rfl, names, rfl, arguments⟩ := eq_of_name_first short whole placed noQuote quote ends
        (marked.keywords.endsBlank _) longest
      refine ⟨?_, arguments, ?_, names⟩
      · rw [names, beforeAttribute, if_pos order]
        simp only [List.append_assoc]
      · rw [beforeClass, if_pos order]
  | false =>
      have parts := marked.text_argument_first order
      rw [source, parts] at long
      rw [parts] at placed
      exact absurd placed (name_ne_toText (Nat.lt_of_add_right_lt (short_of_append short))
        (short_of_append long) ends)

theorem isRead_of_argument_first
    (whole : front ++ (argument ++ (middle ++ (name.text ++ back))) = marked.source)
    (placed : front ++ ((probe k).toText ++ (middle ++ ((probe k).name ++ back))) =
      marked.text (probe k).toText (probe k).name)
    (noQuote : '"' ∉ argument) (quote : middle.head? = some '"') (ends : EndsBlank middle) :
    marked.IsRead (probe k).toText front argument (front ++ ((probe k).toText ++ middle))
      name.text := by
  have short := whole ▸ long
  cases order : marked.classFirst with
  | true =>
      have parts := marked.text_name_first order
      rw [source, parts] at long
      rw [parts] at placed
      exact absurd placed.symm (name_ne_toText (Nat.lt_of_add_right_lt (short_of_append long))
        (short_of_append short) (marked.keywords.endsBlank _))
  | false =>
      have parts := marked.text_argument_first order
      rw [source, parts] at whole
      rw [parts] at placed
      have otherEnds := marked.keywords.endsBlank (marked.brackets.foot ++ marked.between)
      rw [List.append_assoc] at otherEnds
      obtain ⟨rfl, arguments, rfl, names⟩ := eq_of_argument_first short whole placed noQuote quote ends
        otherEnds fun _ => name.isBlank_of_mem_text
      refine ⟨?_, arguments, ?_, names⟩
      · rw [beforeAttribute, order]
        rfl
      · rw [beforeClass, order]
        simp only [Bool.false_eq_true, if_false, List.append_assoc]

end Probe

theorem isRead_of_probe {k : Nat} (long : marked.source.length + probeStem.length < k)
    (marks : ReadMarks marked.source (probe k).toText)
    (placed : marks.classFront ++ (marks.keywords.text ++ ((probe k).name ++ marks.classRest)) =
      marked.text (probe k).toText (probe k).name) :
    marked.IsRead (probe k).toText (marks.front ++ marks.brackets.head) marks.argument
      (marks.classFront ++ marks.keywords.text) marks.name.text := by
  have visible := (isPrimary_probe alphabet (Nat.zero_lt_of_lt long)).visible
  rcases marks_apart visible marks.retargeted with
    ⟨between, quote, heads, behind⟩ | ⟨between, quote, front, behind⟩
  · have whole : (marks.classFront ++ marks.keywords.text) ++ (marks.name.text ++ (between ++
        (marks.argument ++ (marks.brackets.foot ++ marks.rest)))) = marked.source := by
      refine Eq.trans ?_ marks.source_eq.symm
      rw [← List.append_assoc marks.front, heads]
      simp only [List.append_assoc]
    have split := placed
    rw [behind, ← List.append_assoc] at split
    have read := marked.isRead_of_name_first long whole split marks.noQuote quote
      (marks.keywords.endsBlank _)
    rw [heads]
    rwa [List.append_assoc] at read
  · have whole : (marks.front ++ marks.brackets.head) ++ (marks.argument ++ ((between ++
        marks.keywords.text) ++ (marks.name.text ++ marks.classRest))) = marked.source := by
      refine Eq.trans ?_ marks.source_eq.symm
      rw [behind]
      simp only [List.append_assoc]
    have split : (marks.front ++ marks.brackets.head) ++ ((probe k).toText ++ ((between ++
        marks.keywords.text) ++ ((probe k).name ++ marks.classRest))) =
          marked.text (probe k).toText (probe k).name := by
      rw [← placed, front]
      simp only [List.append_assoc]
    have starts : (between ++ marks.keywords.text).head? = some '"' := by
      rw [List.head?_append, quote]
      rfl
    have read := marked.isRead_of_argument_first long whole split marks.noQuote starts
      (marks.keywords.endsBlank _)
    rw [front]
    simpa only [List.append_assoc] using read

end Marked

/-- Every identity is put into both marks, and nothing else changes, exactly if both are read. -/
theorem retargets_iff {alphabet : Alphabet} (marked : Marked alphabet) :
    (∀ id, IsPrimary alphabet id →
        retarget marked.source id = marked.text id.toText id.name) ↔ marked.Readable := by
  constructor
  · intro retargets
    let k := marked.source.length + (probeStem.length + 1)
    have long : marked.source.length + probeStem.length < k := Nat.lt_succ_self _
    have primary := isPrimary_probe alphabet (Nat.zero_lt_of_lt long)
    have placed := retargets (probe k) primary
    have grown : marked.source.length + (probe k).toText.length <
        (retarget marked.source (probe k)).length := by
      have least := marked.length_text_le (probe k).toText (probe k).name
      rw [name_probe, List.length_replicate] at least
      rw [placed, name_probe]
      omega
    obtain ⟨marks, result⟩ := ReadMarks.exists_of_length grown
    exact (marked.isRead_of_probe long marks (result.symm.trans placed)).readable primary.visible
  · exact fun readable id primary => readable.retarget_source primary.visible

namespace Sample

open MigrationSquash.Sample (noGap wordAlphabet)

def oneSpace : Space := ⟨[' '], Text.allBlank_singleton (by decide), List.cons_ne_nil _ _⟩

def addOrders : Name wordAlphabet :=
  ⟨false, 'A', "ddOrders".toList, by decide, List.all_eq_true.1 (by decide)⟩

def addCafe : Name wordAlphabet :=
  ⟨false, 'A', "ddCafé".toList, by decide, List.all_eq_true.1 (by decide)⟩

/-- A designer file with the attribute on the line before the declaration. -/
def designer (argument : Text) (name : Name wordAlphabet) : Marked wordAlphabet where
  before := []
  between := ['\n']
  after := "\n\x7b\n\x7d\n".toList
  brackets := ⟨noGap, noGap, noGap, noGap, noGap⟩
  argument := argument
  keywords := ⟨oneSpace, oneSpace⟩
  name := name
  classFirst := false
  apart := by rintro c ⟨⟩; decide
  whole := by rintro c ⟨⟩; decide

def orders : Marked wordAlphabet := designer "20240301000000_AddOrders".toList addOrders

def cafeFile : Marked wordAlphabet := designer "20240301000000_AddCafé".toList addCafe

def primary : MigrationId := ⟨"20240110120000".toList, "AddUsers".toList⟩

end Sample

theorem retargets_orders : Sample.orders.Readable ∧
    ∀ id, IsPrimary MigrationSquash.Sample.wordAlphabet id →
      retarget Sample.orders.source id = Sample.orders.text id.toText id.name := by
  have readable : Sample.orders.Readable := by
    have small : Sample.orders.name.text.all (fun c => decide (c.val.toNat < 0x80)) = true := by
      decide
    refine ⟨by decide, fun c member => ?_, id, ?_⟩
    · exact of_decide_eq_true (List.all_eq_true.1 small c member)
    · exact not_earlier_readsClass (by decide)
  exact ⟨readable, (retargets_iff Sample.orders).2 readable⟩

/-- The rest of a name that is not ASCII stays behind the new one. -/
theorem accent_stays :
    IsPrimary MigrationSquash.Sample.wordAlphabet Sample.primary ∧
      Sample.cafeFile.source =
        "[Migration(\"20240301000000_AddCafé\")]\npartial class AddCafé\n\x7b\n\x7d\n".toList ∧
      Sample.cafeFile.text Sample.primary.toText Sample.primary.name =
        "[Migration(\"20240110120000_AddUsers\")]\npartial class AddUsers\n\x7b\n\x7d\n".toList ∧
      retarget Sample.cafeFile.source Sample.primary =
        "[Migration(\"20240110120000_AddUsers\")]\npartial class AddUsersé\n\x7b\n\x7d\n".toList ∧
      retarget Sample.cafeFile.source Sample.primary ≠
        Sample.cafeFile.text Sample.primary.toText Sample.primary.name := by
  have source : Sample.cafeFile.source =
      "[Migration(\"20240301000000_AddCafé\")]\npartial class AddCafé\n\x7b\n\x7d\n".toList := by decide
  have wanted : Sample.cafeFile.text Sample.primary.toText Sample.primary.name =
      "[Migration(\"20240110120000_AddUsers\")]\npartial class AddUsers\n\x7b\n\x7d\n".toList := by
    decide
  have written : retarget Sample.cafeFile.source Sample.primary =
      "[Migration(\"20240110120000_AddUsers\")]\npartial class AddUsersé\n\x7b\n\x7d\n".toList := by
    rw [source]
    decide
  refine ⟨⟨by decide, ⟨false, 'A', "ddUsers".toList, by decide, List.all_eq_true.1 (by decide)⟩, rfl⟩,
    source, wanted, written, ?_⟩
  rw [written, wanted]
  decide

end MigrationSquash.Designer
