import MigrationSquash.Proofs.Arguments.Literals
import MigrationSquash.Proofs.Arguments.Named
import MigrationSquash.Proofs.Arguments.Steps

/-!
# Expressions as arguments

Arguments are written with the names that they have, with blanks and comments around them and with
commas between them.  Main statement: they are read back as they were, and the offset behind them is
that of the closing parenthesis, whatever their literals and comments hold and however deep their
brackets nest.
-/

set_option autoImplicit false

namespace MigrationSquash.Code

open Text (AllBlank isBlank trim width)

/-! ## What is written -/

def bracketPairs : List (Char × Char) := [('(', ')'), ('[', ']'), ('{', '}')]

/-- An expression as far as the division of a call goes: brackets nest in it, literals are complete,
and comments are none.  Commas stand in literals, and outside of these only where the expression is
inside of brackets. -/
inductive Expression : Bool → Text → Prop
  | nil {inside : Bool} : Expression inside []
  | char {inside : Bool} {c : Char} {s : Text} (noBracket : isBracket c = false)
      (noQuote : c ≠ '"' ∧ c ≠ '\'') (comma : c = ',' → inside = true) (ordinary : Ordinary c s)
      (behind : Expression inside s) : Expression inside (c :: s)
  /-- A string, perhaps an interpolated one behind its `$`, or a character. -/
  | quoted {inside : Bool} {mark : Char} {body s : Text} (isMark : mark = '"' ∨ mark = '\'')
      (quoted : Quoted mark body) (behind : Expression inside s) :
      Expression inside (mark :: (body ++ mark :: s))
  /-- A verbatim string, whose `$` may also stand before the `@`, as any other character. -/
  | verbatim {inside : Bool} {sign body s : Text} (isSign : sign = ['@'] ∨ sign = ['@', '$'])
      (doubled : Doubled body) (noQuote : s.head? ≠ some '"') (behind : Expression inside s) :
      Expression inside (sign ++ '"' :: (body ++ '"' :: s))
  | brackets {inside : Bool} {opening closing : Char} {inner s : Text}
      (pair : (opening, closing) ∈ bracketPairs) (within : Expression true inner)
      (behind : Expression inside s) : Expression inside (opening :: (inner ++ closing :: s))

/-- Blanks and complete comments. -/
inductive Filler : Text → Prop
  | nil : Filler []
  | blank {c : Char} {s : Text} (blank : isBlank c = true) (behind : Filler s) : Filler (c :: s)
  | lineComment {comment s : Text} (unbroken : '\n' ∉ comment) (behind : Filler s) :
      Filler ('/' :: '/' :: (comment ++ '\n' :: s))
  | blockComment {comment s : Text} (unended : ¬ ['*', '/'] <:+: comment) (behind : Filler s) :
      Filler ('/' :: '*' :: (comment ++ '*' :: '/' :: s))

/-- An argument that is recognised where it is written. -/
structure Argument.Legible (argument : Argument) : Prop where
  parameter : ∀ name ∈ argument.name, IsParameter name
  expression : Expression false argument.value
  shown : argument.value ≠ []
  trimmed : trim argument.value = argument.value
  noSlash : argument.value.getLast? ≠ some '/'
  /-- A value without a name does not look like one that has a name. -/
  unnamed : argument.name = none → ¬ IsNamed argument.value

def Argument.text (argument : Argument) : Text :=
  match argument.name with
  | some name => name ++ ':' :: ' ' :: argument.value
  | none => argument.value

/-- An argument with what stands around it. -/
structure SpacedArgument where
  before : Text
  argument : Argument
  after : Text
  fillsBefore : Filler before
  legible : argument.Legible
  fillsAfter : Filler after

def SpacedArgument.text (spaced : SpacedArgument) : Text :=
  spaced.before ++ (spaced.argument.text ++ spaced.after)

/-- The arguments with commas between them. -/
def listed (written : List SpacedArgument) : Text :=
  Text.join [','] (written.map SpacedArgument.text)

variable {s t back written : Text} {context : Context} {depth offset : Nat} {c : Char}

/-! ## Expressions -/

/-- Neither a literal nor a comment starts where the text ends and `back` begins. -/
structure Detached (s back : Text) : Prop where
  noQuote : back.head? ≠ some '"'
  noDollar : back.head? ≠ some '$'
  noComment : s.getLast? = some '/' → back.head? ≠ some '/' ∧ back.head? ≠ some '*'

theorem Detached.of_suffix (detached : Detached t back) (suffix : s <:+ t) : Detached s back := by
  refine ⟨detached.noQuote, detached.noDollar, fun last => detached.noComment ?_⟩
  obtain ⟨front, rfl⟩ := suffix
  rw [List.getLast?_append, last]
  rfl

theorem Ordinary.append (ordinary : Ordinary c s) (detached : Detached (c :: s) back) :
    Ordinary c (s ++ back) := by
  obtain ⟨noQuote, noDollar, noComment⟩ := detached
  cases s with
  | nil =>
      refine ⟨fun slash => noComment (by simp [slash]), fun _ => ⟨noQuote, ?_⟩⟩
      intro interpolated
      cases back with
      | nil => cases interpolated
      | cons d rest =>
          obtain ⟨rfl, -⟩ := List.cons.inj interpolated
          exact noDollar rfl
  | cons d more =>
      refine ⟨ordinary.noComment, fun sign => ⟨(ordinary.noVerbatim sign).1, ?_⟩⟩
      cases more with
      | nil =>
          intro interpolated
          cases back with
          | nil => cases interpolated
          | cons e rest =>
              obtain ⟨-, quote⟩ := List.cons.inj interpolated
              obtain ⟨rfl, -⟩ := List.cons.inj quote
              exact noQuote rfl
      | cons e rest => exact (ordinary.noVerbatim sign).2

theorem mem_bracketPairs {opening closing : Char} : (opening, closing) ∈ bracketPairs ↔
    opening = '(' ∧ closing = ')' ∨ opening = '[' ∧ closing = ']' ∨
      opening = '{' ∧ closing = '}' := by
  simp [bracketPairs]

theorem leads_opening {opening closing : Char} (pair : (opening, closing) ∈ bracketPairs) :
    Leads back .code depth [opening] [opening] .code (depth + 1) := by
  rcases mem_bracketPairs.1 pair with ⟨rfl, -⟩ | ⟨rfl, -⟩ | ⟨rfl, -⟩ <;>
    exact leads_code ⟨nofun, nofun⟩ fun _ => ⟨by decide, by decide⟩

theorem leads_closing {opening closing : Char} (pair : (opening, closing) ∈ bracketPairs) :
    Leads back .code (depth + 1) [closing] [closing] .code depth := by
  rcases mem_bracketPairs.1 pair with ⟨-, rfl⟩ | ⟨-, rfl⟩ | ⟨-, rfl⟩ <;>
    exact leads_code ⟨nofun, nofun⟩ nofun

theorem leads_sign {sign : Text} (isSign : sign = ['@'] ∨ sign = ['@', '$']) :
    Leads back .code depth (sign ++ ['"']) (sign ++ ['"']) .verbatim depth := by
  rcases isSign with rfl | rfl <;> exact fun offset => rfl

/-- Where an expression ends no other bracket is open than where it started. -/
theorem Expression.leads {inside : Bool} (expression : Expression inside s)
    (deep : inside = true → depth ≠ 0) (detached : Detached s back) :
    Leads back .code depth s s .code depth := by
  induction expression generalizing depth back with
  | nil => exact .nil
  | @char inside c s noBracket noQuote comma ordinary _ ih =>
      have here := leads_unmarked noBracket noQuote (fun isComma => deep (comma isComma))
        (ordinary.append detached)
      exact here.append (ih deep (detached.of_suffix (List.suffix_cons c s)))
  | @quoted inside mark body s isMark quoted _ ih =>
      have behind := ih deep (detached.of_suffix ⟨mark :: (body ++ [mark]), by simp⟩)
      have whole := (quoted.leads_literal isMark).append behind
      simpa using whole
  | @verbatim inside sign body s isSign doubled noQuote _ ih =>
      have behind := ih deep (detached.of_suffix ⟨sign ++ '"' :: (body ++ ['"']), by simp⟩)
      have next : (s ++ back).head? ≠ some '"' := by
        cases s with
        | nil => exact detached.noQuote
        | cons => exact noQuote
      have whole := (leads_sign isSign).append ((doubled.leads next).append behind)
      simpa using whole
  | @brackets inside opening closing inner s pair _ _ ihInner ih =>
      have closes : Detached inner (closing :: (s ++ back)) := by
        rcases mem_bracketPairs.1 pair with ⟨-, rfl⟩ | ⟨-, rfl⟩ | ⟨-, rfl⟩ <;>
          exact ⟨by simp, by simp, fun _ => by simp⟩
      have behind := ih deep (detached.of_suffix ⟨opening :: (inner ++ [closing]), by simp⟩)
      exact (leads_opening pair).append
        ((ihInner (fun _ => Nat.succ_ne_zero depth) closes).append
          ((leads_closing pair).append behind))

/-- Characters that mean nothing to the division may stand anywhere in an expression. -/
theorem Expression.plain_append {inside : Bool} (plain : ∀ c ∈ t, Plain c)
    (behind : Expression inside s) : Expression inside (t ++ s) := by
  induction t with
  | nil => exact behind
  | cons c rest ih =>
      obtain ⟨noBracket, noQuote, noComma, ordinary⟩ := (plain c List.mem_cons_self).unmarked
      exact .char noBracket noQuote (fun comma => absurd comma noComma) (ordinary _)
        (ih fun d member => plain d (List.mem_cons_of_mem c member))

/-! ## Comments -/

theorem leads_lineComment {comment : Text} (unbroken : '\n' ∉ comment) :
    Leads back .lineComment depth (comment ++ ['\n']) ['\n'] .code depth := by
  induction comment with
  | nil => exact fun offset => rfl
  | cons c rest ih =>
      rw [List.mem_cons, not_or] at unbroken
      have here : Leads (rest ++ ['\n'] ++ back) .lineComment depth [c] [] .lineComment depth := by
        intro offset
        rw [List.singleton_append, segments?, if_neg (Ne.symm unbroken.1), map_write_nil]
        rfl
      exact here.append (ih unbroken.2)

theorem leads_blockComment {comment : Text} (unended : ¬ ['*', '/'] <:+: comment) :
    Leads back .blockComment depth (comment ++ ['*', '/']) [] .code depth := by
  induction comment with
  | nil => exact fun offset => (map_write_nil _).symm
  | cons c rest ih =>
      have later : ¬ ['*', '/'] <:+: rest := fun ends => unended (ends.trans ⟨[c], [], by simp⟩)
      have here : Leads (rest ++ ['*', '/'] ++ back) .blockComment depth [c] [] .blockComment
          depth := by
        intro offset
        rw [List.singleton_append, segments?, map_write_nil]
        · rfl
        · rintro more rfl split
          cases rest with
          | nil => cases split
          | cons d others =>
              obtain ⟨rfl, -⟩ := List.cons.inj split
              exact unended ⟨[], others, rfl⟩
      exact here.append (ih later)

/-- Of what fills the space around an argument only blanks are copied. -/
theorem Filler.exists_leads (filler : Filler s) : ∃ blanks, AllBlank blanks ∧
    ∀ depth back, Leads back .code depth s blanks .code depth := by
  induction filler with
  | nil => exact ⟨[], nofun, fun depth back => .nil⟩
  | @blank c s blank _ ih =>
      obtain ⟨blanks, allBlank, leads⟩ := ih
      exact ⟨c :: blanks, allBlank.cons blank, fun depth back =>
        (leads_plain (plain_of_noMark (by decide) blank)).append (leads depth back)⟩
  | @lineComment comment s unbroken _ ih =>
      obtain ⟨blanks, allBlank, leads⟩ := ih
      refine ⟨'\n' :: blanks, allBlank.cons (by decide), fun depth back => ?_⟩
      have starts : Leads (comment ++ ['\n'] ++ (s ++ back)) .code depth ['/', '/'] [] .lineComment
          depth := fun offset => (map_write_nil _).symm
      have whole := (starts.append (leads_lineComment unbroken)).append (leads depth back)
      simpa using whole
  | @blockComment comment s unended _ ih =>
      obtain ⟨blanks, allBlank, leads⟩ := ih
      refine ⟨blanks, allBlank, fun depth back => ?_⟩
      have starts : Leads (comment ++ ['*', '/'] ++ (s ++ back)) .code depth ['/', '*'] []
          .blockComment depth := fun offset => (map_write_nil _).symm
      have whole := (starts.append (leads_blockComment unended)).append (leads depth back)
      simpa using whole

theorem Filler.blanks_append (blank : AllBlank t) (filler : Filler s) : Filler (t ++ s) := by
  induction t with
  | nil => exact filler
  | cons c rest ih =>
      exact .blank (blank c List.mem_cons_self)
        (ih fun d member => blank d (List.mem_cons_of_mem c member))

theorem Filler.head? (filler : Filler s) (c : Char) (first : s.head? = some c) :
    isBlank c = true ∨ c = '/' := by
  cases filler with
  | nil => cases first
  | blank blank _ =>
      obtain rfl := Option.some.inj first
      exact Or.inl blank
  | lineComment | blockComment => exact Or.inr (Option.some.inj first).symm

/-! ## Arguments -/

namespace Argument.Legible

variable {argument : Argument} (legible : argument.Legible)
include legible

theorem expression_text : Expression false argument.text := by
  unfold text
  cases named : argument.name with
  | none => exact legible.expression
  | some name =>
      have colon : ∀ c ∈ [':', ' '], Plain c := by simp [Plain, marks]
      have word : ∀ c ∈ name, Plain c := fun c member =>
        plain_of_noMark (by decide) ((legible.parameter name named).word c member)
      exact .plain_append word (.plain_append colon legible.expression)

theorem getLast?_text : argument.text.getLast? = argument.value.getLast? := by
  unfold text
  cases argument.name with
  | none => rfl
  | some name =>
      obtain ⟨first, rest, split⟩ := List.exists_cons_of_ne_nil legible.shown
      simp [split, List.getLast?_cons]

theorem trim_text : trim argument.text = argument.text := by
  cases named : argument.name with
  | none =>
      rw [text, named]
      exact legible.trimmed
  | some name =>
      obtain ⟨first, others, rfl, -, visible⟩ := (legible.parameter name named).exists_cons
      obtain ⟨last, isLast⟩ := Option.isSome_iff_exists.1
        (List.getLast?_isSome.2 legible.shown)
      have lastVisible : isBlank last = false := by
        rw [Bool.eq_false_iff]
        intro blank
        have other := Text.getLast?_trimEnd_ne blank (Text.trimStart argument.value)
        exact other (by rw [← Text.trim, legible.trimmed, isLast])
      have ends := legible.getLast?_text.trans isLast
      refine Text.trim_of_visible ?_ ends visible lastVisible
      rw [text, named]
      rfl

theorem text_ne_nil : argument.text ≠ [] := by
  rw [← List.getLast?_isSome, legible.getLast?_text, List.getLast?_isSome]
  exact legible.shown

theorem namedArgument?_text : (namedArgument? argument.text).getD ⟨none, argument.text⟩ =
    argument := by
  obtain ⟨name, value⟩ := argument
  cases name with
  | none =>
      have notNamed : namedArgument? value = none := by
        rw [← Option.not_isSome_iff_eq_none, ← isNamed_iff]
        exact legible.unnamed rfl
      rw [text]
      dsimp only
      rw [notNamed]
      rfl
  | some name =>
      have blank : AllBlank [' '] := Text.allBlank_singleton (by decide)
      have trimmed : trim (' ' :: value) = value :=
        (Text.trim_blanks_append blank value).trans legible.trimmed
      have noGap : AllBlank [] := nofun
      have noColon : ' ' ≠ ':' := by decide
      have read := namedArgument?_named (Or.inl rfl) (legible.parameter name rfl) noGap noColon
        value
      rw [trimmed] at read
      exact congrArg (Option.getD · _) read

end Argument.Legible

namespace SpacedArgument

variable (spaced : SpacedArgument)

/-- What is copied of an argument is read as this argument. -/
theorem exists_leads : ∃ copied, argument? copied = some spaced.argument ∧
    ∀ c rest, c = ',' ∨ c = ')' → Leads (c :: rest) .code 0 spaced.text copied .code 0 := by
  obtain ⟨front, frontBlank, leadsFront⟩ := spaced.fillsBefore.exists_leads
  obtain ⟨back, backBlank, leadsBack⟩ := spaced.fillsAfter.exists_leads
  have legible := spaced.legible
  refine ⟨front ++ (spaced.argument.text ++ back), ?_, fun c rest divides => ?_⟩
  · rw [argument?_blanks frontBlank backBlank legible.trim_text legible.text_ne_nil,
      legible.namedArgument?_text]
  · have next (d : Char) (first : (spaced.after ++ c :: rest).head? = some d) :
        isBlank d = true ∨ d ∈ ['/', ',', ')'] := by
      cases after : spaced.after with
      | nil =>
          rw [after] at first
          obtain rfl := Option.some.inj first
          rcases divides with rfl | rfl <;> exact Or.inr (by decide)
      | cons e more =>
          rw [after] at first
          refine (spaced.fillsAfter.head? d (by rw [after]; exact first)).imp_right ?_
          rintro rfl
          decide
    have detached : Detached spaced.argument.text (spaced.after ++ c :: rest) := by
      refine ⟨fun quote => ?_, fun dollar => ?_, fun slash => ?_⟩
      · exact absurd (next _ quote) (by decide)
      · exact absurd (next _ dollar) (by decide)
      · exact absurd (legible.getLast?_text ▸ slash) legible.noSlash
    exact (leadsFront 0 _).append ((legible.expression_text.leads nofun detached).append
      (leadsBack 0 _))

end SpacedArgument

/-! ## Lists of arguments -/

theorem argumentsFrom?_comma {copied : Text} (leads : Leads (',' :: back) .code 0 s copied .code 0)
    (offset : Nat) :
    argumentsFrom? offset (s ++ ',' :: back) =
      (argumentsFrom? (offset + width s + 1) back).map fun given =>
        ((argument? copied).toList ++ given.1, given.2) := by
  rw [argumentsFrom?, argumentsFrom?, leads, segments?]
  cases segments? .code 0 (offset + width s + 1) back with
  | none => rfl
  | some segments =>
      simp only [Option.map_some, Segments.divide, Segments.write, List.append_nil,
        List.filterMap_cons]
      cases argument? copied <;> rfl

theorem argumentsFrom?_end {copied : Text} (leads : Leads (')' :: back) .code 0 s copied .code 0)
    (offset : Nat) :
    argumentsFrom? offset (s ++ ')' :: back) =
      some ((argument? copied).toList, offset + width s + 1) := by
  rw [argumentsFrom?, leads, segments?]
  simp only [Option.map_some, Segments.write, List.append_nil, List.filterMap_cons]
  cases argument? copied <;> rfl

theorem argumentsFrom?_filler (filler : Filler s) (offset : Nat) :
    argumentsFrom? offset (s ++ back) = argumentsFrom? (offset + width s) back := by
  obtain ⟨blanks, allBlank, leads⟩ := filler.exists_leads
  rw [argumentsFrom?, argumentsFrom?, leads 0 back]
  cases segments? .code 0 (offset + width s) back with
  | none => rfl
  | some segments =>
      have same : argument? (blanks ++ segments.first) = argument? segments.first := by
        rw [argument?, argument?, Text.trim_blanks_append allBlank]
      simp only [Option.map_some, Segments.write, List.filterMap_cons, same]

theorem argumentsFrom?_listed (written : List SpacedArgument) (offset : Nat) (back : Text) :
    argumentsFrom? offset (listed written ++ ')' :: back) =
      some (written.map (·.argument), offset + width (listed written) + 1) := by
  induction written generalizing offset with
  | nil => rfl
  | cons first rest ih =>
      obtain ⟨copied, isArgument, leads⟩ := first.exists_leads
      cases rest with
      | nil =>
          have alone : listed [first] = first.text := rfl
          rw [alone, argumentsFrom?_end (leads ')' back (Or.inr rfl)), isArgument]
          rfl
      | cons next others =>
          have split : listed (first :: next :: others) =
              first.text ++ ',' :: listed (next :: others) := by
            simp [listed, Text.join]
          rw [split, List.append_assoc, List.cons_append,
            argumentsFrom?_comma (leads ',' _ (Or.inl rfl)), ih, isArgument]
          have comma : ','.utf8Size = 1 := rfl
          simp [Nat.add_assoc, comma]

/-- Arguments are read back as they are listed in parentheses, whatever stands in front of these and
behind them. -/
theorem arguments?_listed (filler : { s : Text // Filler s }) (written : List SpacedArgument)
    (front back : Text) :
    arguments? (front ++ '(' :: (filler.1 ++ listed written ++ ')' :: back)) (width front) =
      some (written.map (·.argument),
        width front + 1 + width (filler.1 ++ listed written) + 1) := by
  rw [arguments?_append, List.append_assoc, argumentsFrom?_filler filler.2, argumentsFrom?_listed,
    Text.width_append, ← Nat.add_assoc]

namespace Sample

theorem expression_nested : Expression false "f(a, [')', @\"\"\"(\"])".toList :=
  have character : Expression true "')', @\"\"\"(\"".toList :=
    .quoted (Or.inr rfl) (.char (by decide) (by decide) (by decide) .nil)
      (.char (by decide) (by decide) (fun _ => rfl) (by decide)
        (.char (by decide) (by decide) (fun _ => rfl) (by decide)
          (.verbatim (Or.inl rfl) (.quotes (.char (by decide) .nil)) (by decide) .nil)))
  have inner : Expression true "a, [')', @\"\"\"(\"]".toList :=
    .char (by decide) (by decide) nofun (by decide)
      (.char (by decide) (by decide) (fun _ => rfl) (by decide)
        (.char (by decide) (by decide) nofun (by decide) (.brackets (by decide) character .nil)))
  .char (by decide) (by decide) nofun (by decide) (.brackets (by decide) inner .nil)

/-- An argument between two comments. -/
def betweenComments : SpacedArgument where
  before := "\n  // the \"old), one\n  ".toList
  argument := ⟨none, "f(a, [')', @\"\"\"(\"])".toList⟩
  after := " /* ), // */".toList
  fillsBefore :=
    have unbroken : '\n' ∉ " the \"old), one".toList := by decide
    .blanks_append (t := "\n  ".toList) (Text.allBlank_iff.2 rfl)
      (.lineComment unbroken (.blanks_append (t := "  ".toList) (Text.allBlank_iff.2 rfl) .nil))
  legible := ⟨nofun, expression_nested, by decide, by decide, by decide, by decide⟩
  fillsAfter :=
    have unended : ¬ ['*', '/'] <:+: " ), // ".toList := by decide +kernel
    .blank (by decide) (.blockComment unended .nil)

/-- An argument with a name and a string that ends with an escaped quote. -/
def escapedQuote : SpacedArgument where
  before := []
  argument := ⟨some "name".toList, "\"a,\\\"\"".toList⟩
  after := "\n".toList
  fillsBefore := .nil
  legible :=
    { parameter := by
        rintro name isName
        obtain rfl := Option.some.inj isName
        exact ⟨by decide, List.all_eq_true.1 (by decide)⟩
      expression := .quoted (Or.inl rfl)
        (.char (by decide) (by decide) (by decide)
          (.char (by decide) (by decide) (by decide) (.escape '"' .nil))) .nil
      shown := by decide
      trimmed := by decide
      noSlash := by decide
      unnamed := nofun }
  fillsAfter := .blank (by decide) .nil

/-- The arguments in a call of which more follows. -/
def twoArguments : Text :=
  "Call(\n  // the \"old), one\n  f(a, [')', @\"\"\"(\"]) /* ), // */,name: \"a,\\\"\"\n); b)".toList

end Sample

theorem arguments?_nested :
    arguments? Sample.twoArguments 4 =
      some ([⟨none, "f(a, [')', @\"\"\"(\"])".toList⟩, ⟨some "name".toList, "\"a,\\\"\"".toList⟩],
        74) := by
  have read := arguments?_listed ⟨[], .nil⟩ [Sample.betweenComments, Sample.escapedQuote]
    "Call".toList "; b)".toList
  exact read

end MigrationSquash.Code
