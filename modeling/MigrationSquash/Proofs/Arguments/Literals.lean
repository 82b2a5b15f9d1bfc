import MigrationSquash.Proofs.Arguments.Steps
import MigrationSquash.Proofs.Scan.Blanks

/-!
# String literals as arguments

A text is written as a string literal with a backslash before each backslash and each quote in it.
Among the arguments of a call a literal without line breaks is copied as it stands, whatever it
holds.  Main statements: its value is the text that was written, and texts of literals and of
characters that mean nothing to the division are the segments that commas divide them into.
-/

set_option autoImplicit false

namespace MigrationSquash.Code

open Text (trim width)

/-- A text with a backslash before each backslash and each quote in it. -/
def escape (s : Text) : Text := s.flatMap fun c => if c = '\\' ∨ c = '"' then ['\\', c] else [c]

/-- A text as a string literal. -/
def quote (s : Text) : Text := '"' :: (escape s ++ ['"'])

variable {c : Char} {s t : Text}

theorem escape_cons_of_mark (mark : c = '\\' ∨ c = '"') (s : Text) :
    escape (c :: s) = '\\' :: c :: escape s := by
  rw [escape, List.flatMap_cons, if_pos mark]
  rfl

theorem escape_cons_of_plain (plain : ¬ (c = '\\' ∨ c = '"')) (s : Text) :
    escape (c :: s) = c :: escape s := by
  rw [escape, List.flatMap_cons, if_neg plain]
  rfl

/-- A text with each backslash doubled. -/
def doubleBackslashes (s : Text) : Text := s.flatMap fun c => if c = '\\' then ['\\', c] else [c]

theorem startsWith_escape (s : Text) : Text.startsWith ['"'] (escape s) = false := by
  cases s with
  | nil => rfl
  | cons c rest =>
      by_cases mark : c = '\\' ∨ c = '"'
      · rw [escape_cons_of_mark mark]
        rfl
      · have noQuote : '"' ≠ c := fun same => mark (Or.inr same.symm)
        rw [escape_cons_of_plain mark]
        simp [Text.startsWith, Text.after?, noQuote]

/-- Taking back the escapes of quotes leaves those of backslashes: no backslash that is doubled
stands before a quote without one of its own. -/
theorem replaceAll_escape (s : Text) :
    Text.replaceAll ['\\', '"'] ['"'] (escape s) = doubleBackslashes s := by
  unfold Text.replaceAll
  induction s with
  | nil => rfl
  | cons c rest ih =>
      by_cases backslash : c = '\\'
      · subst backslash
        have first : Text.startsWith ['\\', '"'] ('\\' :: '\\' :: escape rest) = false := rfl
        have second : Text.startsWith ['\\', '"'] ('\\' :: escape rest) = false :=
          startsWith_escape rest
        rw [escape_cons_of_mark (Or.inl rfl), Text.replaceFrom, first, Text.replaceFrom, second, ih]
        rfl
      · by_cases quote : c = '"'
        · subst quote
          rw [escape_cons_of_mark (Or.inr rfl)]
          exact congrArg ('"' :: ·) ih
        · have plain : ¬ (c = '\\' ∨ c = '"') := not_or.2 ⟨backslash, quote⟩
          have starts : Text.startsWith ['\\', '"'] (c :: escape rest) = false := by
            simp [Text.startsWith, Text.after?, Ne.symm backslash]
          rw [escape_cons_of_plain plain, Text.replaceFrom, starts, ih, doubleBackslashes,
            doubleBackslashes, List.flatMap_cons, if_neg backslash]
          rfl

theorem replaceAll_doubleBackslashes (s : Text) :
    Text.replaceAll ['\\', '\\'] ['\\'] (doubleBackslashes s) = s := by
  unfold Text.replaceAll doubleBackslashes
  induction s with
  | nil => rfl
  | cons c rest ih =>
      by_cases backslash : c = '\\'
      · subst backslash
        exact congrArg ('\\' :: ·) ih
      · have starts (t : Text) : Text.startsWith ['\\', '\\'] (c :: t) = false := by
          simp [Text.startsWith, Text.after?, Ne.symm backslash]
        rw [List.flatMap_cons, if_neg backslash, List.singleton_append, Text.replaceFrom, starts, ih]
        rfl

/-- A literal is the only value that ends with the quote it starts with. -/
theorem trim_quote (s : Text) : trim (quote s) = quote s :=
  Text.trim_of_visible rfl (List.getLast?_eq_some_iff.2 ⟨'"' :: escape s, rfl⟩) (by decide)
    (by decide)

theorem literalValue_quote (s : Text) : literalValue (quote s) = some s := by
  have noVerbatim : between? ['@', '"'] ['"'] (quote s) = none := rfl
  have inner : between? ['"'] ['"'] (quote s) = some (escape s) := by
    have rest : Text.after? ['"'] (quote s) = some (escape s ++ ['"']) :=
      Text.after?_eq_some_iff.2 rfl
    rw [between?, rest, Option.bind_some]
    exact Text.before?_eq_some_iff.2 rfl
  have visible : (quote s).isEmpty = false := rfl
  have notNull : quote s ≠ "null".toList := nofun
  simp only [literalValue, trim_quote, noVerbatim, inner, replaceAll_escape,
    replaceAll_doubleBackslashes, visible, notNull, decide_false, Bool.or_false,
    Bool.false_eq_true, if_false]

/-- A text outside of all brackets that is copied into the segment of which it is a part. -/
def Copies (context : Context) (s : Text) (behind : Context) : Prop :=
  ∀ offset back, ∃ later,
    segments? context 0 offset (s ++ back) = (segments? behind 0 later back).map (Segments.write s)

theorem Leads.copies {context behind : Context}
    (leads : ∀ back, Leads back context 0 s s behind 0) : Copies context s behind :=
  fun offset back => ⟨_, leads back offset⟩

theorem Copies.append {context between behind : Context} (first : Copies context s between)
    (second : Copies between t behind) : Copies context (s ++ t) behind := by
  intro offset back
  obtain ⟨middle, here⟩ := first offset (t ++ back)
  obtain ⟨later, there⟩ := second middle back
  exact ⟨later, by rw [List.append_assoc, here, there, map_write_write]⟩

/-- The characters that divide segments or may start something. -/
def marks : List Char := ['/', '@', '"', '\'', '(', '[', '{', ')', ']', '}', ',']

/-- A character that neither divides segments nor starts anything. -/
def Plain (c : Char) : Prop := c ∉ marks

instance : DecidablePred Plain := fun c => inferInstanceAs (Decidable (c ∉ marks))

theorem plain_of_noMark {p : Char → Bool} (noMark : marks.all (!p ·) = true) (holds : p c = true) :
    Plain c := by
  intro member
  have other := List.all_eq_true.1 noMark c member
  rw [holds] at other
  cases other

theorem Plain.unmarked (plain : Plain c) : isBracket c = false ∧ (c ≠ '"' ∧ c ≠ '\'') ∧
    c ≠ ',' ∧ ∀ s, Ordinary c s := by
  simp only [Plain, marks, List.mem_cons, List.not_mem_nil, or_false, not_or] at plain
  refine ⟨by simp [isBracket, plain], by simp [plain], by simp [plain], fun s => ?_⟩
  exact ⟨fun slash => absurd slash plain.1, fun sign => absurd sign plain.2.1⟩

theorem leads_plain {back : Text} {depth : Nat} (plain : Plain c) :
    Leads back .code depth [c] [c] .code depth := by
  obtain ⟨noBracket, noQuote, noComma, ordinary⟩ := plain.unmarked
  exact leads_unmarked noBracket noQuote (fun comma => absurd comma noComma) (ordinary back)

theorem copies_plain (plain : ∀ c ∈ s, Plain c) : Copies .code s .code := by
  induction s with
  | nil => exact Leads.copies fun back => .nil
  | cons c rest ih =>
      have here : Copies .code [c] .code :=
        Leads.copies fun back => leads_plain (plain c List.mem_cons_self)
      exact here.append (ih fun d member => plain d (List.mem_cons_of_mem c member))

theorem quoted_escape (unbroken : '\n' ∉ s) : Quoted '"' (escape s) := by
  induction s with
  | nil => exact .nil
  | cons c rest ih =>
      rw [List.mem_cons, not_or] at unbroken
      have behind := ih unbroken.2
      by_cases mark : c = '\\' ∨ c = '"'
      · rw [escape_cons_of_mark mark]
        exact .escape c behind
      · rw [escape_cons_of_plain mark]
        rw [not_or] at mark
        exact .char mark.2 mark.1 (Ne.symm unbroken.1) behind

/-- A literal without line breaks is read up to the quote that ends it. -/
theorem copies_quote (unbroken : '\n' ∉ s) : Copies .code (quote s) .code :=
  Leads.copies fun _ => (quoted_escape unbroken).leads_literal (Or.inl rfl)

/-- The texts between the commas of a call are its segments. -/
theorem segments?_join (texts : List Text) (copied : ∀ s ∈ texts, Copies .code s .code)
    (offset : Nat) (back : Text) : ∃ stop,
      segments? .code 0 offset (Text.join [','] texts ++ ')' :: back) =
        some ⟨texts.headD [], texts.tail, stop⟩ := by
  induction texts generalizing offset with
  | nil => exact ⟨offset + 1, rfl⟩
  | cons s rest ih =>
      have first := copied s List.mem_cons_self
      have later := ih fun t member => copied t (List.mem_cons_of_mem s member)
      cases rest with
      | nil =>
          obtain ⟨behind, here⟩ := first offset (')' :: back)
          refine ⟨behind + 1, here.trans ?_⟩
          simp [segments?, Segments.write]
      | cons next others =>
          obtain ⟨behind, here⟩ :=
            first offset (',' :: (Text.join [','] (next :: others) ++ ')' :: back))
          obtain ⟨stop, found⟩ := later (behind + 1)
          refine ⟨stop, ?_⟩
          have split : Text.join [','] (s :: next :: others) ++ ')' :: back =
              s ++ ',' :: (Text.join [','] (next :: others) ++ ')' :: back) := by
            simp [Text.join]
          rw [split, here, segments?, found]
          simp [Segments.write, Segments.divide]

end MigrationSquash.Code
