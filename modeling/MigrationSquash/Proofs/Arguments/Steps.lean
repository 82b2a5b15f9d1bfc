import MigrationSquash.Proofs.Arguments.Marks

/-!
# Reading pieces of a call

What the division of a call makes of a piece of its text: in which context the piece is left, how
many brackets are open behind it and what of it is copied.  What stands behind the piece has a part
in that, as a comment and a literal may start with the last character of one piece and the first
character of the next.
-/

set_option autoImplicit false

namespace MigrationSquash.Code

open Text (width)

/-- Where `back` follows, the text leads from one context and number of open brackets to another,
and `written` is copied into the segment. -/
def Leads (back : Text) (context : Context) (depth : Nat) (s written : Text) (behind : Context)
    (inner : Nat) : Prop :=
  ∀ offset, segments? context depth offset (s ++ back) =
    (segments? behind inner (offset + width s) back).map (Segments.write written)

variable {back s t written more : Text} {context between behind : Context}
  {depth middle inner : Nat} {c : Char}

theorem map_write_nil (segments : Option Segments) :
    segments.map (Segments.write []) = segments := by
  have same : Segments.write [] = id := rfl
  rw [same, Option.map_id]
  rfl

theorem map_write_write (written more : Text) (segments : Option Segments) :
    (segments.map (Segments.write more)).map (Segments.write written) =
      segments.map (Segments.write (written ++ more)) := by
  cases segments <;> simp [Segments.write]

theorem Leads.nil : Leads back context depth [] [] context depth := by
  intro offset
  exact (map_write_nil _).symm

theorem Leads.append (first : Leads (t ++ back) context depth s written between middle)
    (second : Leads back between middle t more behind inner) :
    Leads back context depth (s ++ t) (written ++ more) behind inner := by
  intro offset
  rw [List.append_assoc, first, second, map_write_write, Text.width_append, Nat.add_assoc]

/-- Before `s` the character of code starts neither a comment nor a verbatim string. -/
structure Ordinary (c : Char) (s : Text) : Prop where
  noComment : c = '/' → s.head? ≠ some '/' ∧ s.head? ≠ some '*'
  noVerbatim : c = '@' → s.head? ≠ some '"' ∧ s.take 2 ≠ ['$', '"']

instance (c : Char) (s : Text) : Decidable (Ordinary c s) :=
  decidable_of_iff ((c = '/' → s.head? ≠ some '/' ∧ s.head? ≠ some '*') ∧
      (c = '@' → s.head? ≠ some '"' ∧ s.take 2 ≠ ['$', '"']))
    ⟨fun both => ⟨both.1, both.2⟩, fun ordinary => ⟨ordinary.noComment, ordinary.noVerbatim⟩⟩

/-- The context behind a character of code. -/
def opened (c : Char) : Context :=
  if c = '"' then .string else if c = '\'' then .character else .code

/-- A character of code is copied unless it ends the segment. -/
theorem leads_code (ordinary : Ordinary c back) (goesOn : depth = 0 → c ≠ ')' ∧ c ≠ ',') :
    Leads back .code depth [c] [c] (opened c) (nest depth c) := by
  intro offset
  rw [List.singleton_append, segments?]
  · rfl
  · rintro rest rfl rfl
    exact (ordinary.noComment rfl).1 rfl
  · rintro rest rfl rfl
    exact (ordinary.noComment rfl).2 rfl
  · rintro rest rfl rfl
    exact (ordinary.noVerbatim rfl).1 rfl
  · rintro rest rfl rfl
    exact (ordinary.noVerbatim rfl).2 rfl
  · exact fun outside => (goesOn outside).1
  · exact fun outside => (goesOn outside).2

/-- A character that is no bracket and starts nothing is copied where commas divide nothing. -/
theorem leads_unmarked (noBracket : isBracket c = false) (noQuote : c ≠ '"' ∧ c ≠ '\'')
    (comma : c = ',' → depth ≠ 0) (ordinary : Ordinary c back) :
    Leads back .code depth [c] [c] .code depth := by
  simp only [isBracket, Bool.or_eq_false_iff, decide_eq_false_iff_not] at noBracket
  have here : Leads back .code depth [c] [c] (opened c) (nest depth c) :=
    leads_code ordinary fun outside => ⟨noBracket.1.1.2, fun isComma => comma isComma outside⟩
  have stays : opened c = .code := by simp [opened, noQuote]
  have level : nest depth c = depth := by simp [nest, noBracket]
  rwa [stays, level] at here

/-! ## Literals -/

/-- What may stand between quotes of one kind on one line: a backslash takes the character after it
along. -/
inductive Quoted (mark : Char) : Text → Prop
  | nil : Quoted mark []
  | escape {s : Text} (c : Char) (rest : Quoted mark s) : Quoted mark ('\\' :: c :: s)
  | char {c : Char} {s : Text} (noMark : c ≠ mark) (noEscape : c ≠ '\\') (noFeed : c ≠ '\n')
      (rest : Quoted mark s) : Quoted mark (c :: s)

/-- What may stand between the quotes of a verbatim string: quotes are doubled. -/
inductive Doubled : Text → Prop
  | nil : Doubled []
  | quotes {s : Text} (rest : Doubled s) : Doubled ('"' :: '"' :: s)
  | char {c : Char} {s : Text} (noQuote : c ≠ '"') (rest : Doubled s) : Doubled (c :: s)

/-- The context in which a quote ends the literal. -/
def Encloses (mark : Char) (context : Context) : Prop :=
  mark = '"' ∧ context = .string ∨ mark = '\'' ∧ context = .character

theorem leads_escape {mark : Char} (encloses : Encloses mark context) (c : Char) :
    Leads back context depth ['\\', c] ['\\', c] context depth := by
  intro offset
  rcases encloses with ⟨-, rfl⟩ | ⟨-, rfl⟩ <;>
    simp [segments?, Nat.add_assoc, show '\\'.utf8Size = 1 from rfl]

theorem leads_inside {mark : Char} (encloses : Encloses mark context) (noEscape : c ≠ '\\') :
    Leads back context depth [c] [c] (if c = mark || c = '\n' then .code else context) depth := by
  intro offset
  rcases encloses with ⟨rfl, rfl⟩ | ⟨rfl, rfl⟩
  all_goals
    rw [List.singleton_append, segments?]
    · rfl
    · intro d rest same
      exact absurd same noEscape

theorem Quoted.leads {mark : Char} (encloses : Encloses mark context) (quoted : Quoted mark s) :
    Leads back context depth s s context depth := by
  induction quoted with
  | nil => exact .nil
  | escape c _ ih => exact (leads_escape encloses c).append ih
  | @char c s noMark noEscape noFeed _ ih =>
      have here : Leads (s ++ back) context depth [c] [c]
          (if c = mark || c = '\n' then .code else context) depth := leads_inside encloses noEscape
      rw [if_neg (by simp [noMark, noFeed])] at here
      exact here.append ih

theorem Encloses.leads_end {mark : Char} (encloses : Encloses mark context) :
    Leads back context depth [mark] [mark] .code depth := by
  have noEscape : mark ≠ '\\' := by
    rcases encloses with ⟨rfl, -⟩ | ⟨rfl, -⟩ <;> decide
  have here : Leads back context depth [mark] [mark]
      (if mark = mark || mark = '\n' then .code else context) depth :=
    leads_inside encloses noEscape
  rwa [if_pos (by simp)] at here

theorem Encloses.leads_start {mark : Char} (encloses : Encloses mark context) :
    Leads back .code depth [mark] [mark] context depth := by
  rcases encloses with ⟨rfl, rfl⟩ | ⟨rfl, rfl⟩ <;>
    exact leads_code ⟨nofun, nofun⟩ fun _ => ⟨by decide, by decide⟩

/-- A string or a character is read up to the quote that ends it. -/
theorem Quoted.leads_literal {mark : Char} (isMark : mark = '"' ∨ mark = '\'')
    (quoted : Quoted mark s) :
    Leads back .code depth (mark :: (s ++ [mark])) (mark :: (s ++ [mark])) .code depth := by
  obtain ⟨context, encloses⟩ : ∃ context, Encloses mark context := by
    rcases isMark with rfl | rfl
    · exact ⟨.string, Or.inl ⟨rfl, rfl⟩⟩
    · exact ⟨.character, Or.inr ⟨rfl, rfl⟩⟩
  exact encloses.leads_start.append ((quoted.leads encloses).append encloses.leads_end)

theorem Doubled.leads (doubled : Doubled s) (noQuote : back.head? ≠ some '"') :
    Leads back .verbatim depth (s ++ ['"']) (s ++ ['"']) .code depth := by
  induction doubled with
  | nil =>
      intro offset
      rw [List.nil_append, List.singleton_append, segments?]
      · rfl
      · rintro rest - rfl
        exact noQuote rfl
  | @quotes s _ ih =>
      have here : Leads (s ++ ['"'] ++ back) .verbatim depth ['"', '"'] ['"', '"'] .verbatim
          depth := fun offset => rfl
      exact here.append ih
  | @char c s plain _ ih =>
      have here : Leads (s ++ ['"'] ++ back) .verbatim depth [c] [c] .verbatim depth := by
        intro offset
        rw [List.singleton_append, segments?, if_neg plain]
        · rfl
        · intro rest same
          exact absurd same plain
      exact here.append ih

end MigrationSquash.Code
