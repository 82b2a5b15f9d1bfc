import MigrationSquash.Code.Import
import MigrationSquash.Proofs.Text.Folding

/-!
# Using directives

The directives of the language that stand on one line: one imports a namespace, the members of a
type, or a type under another name, perhaps for the whole program.  A name may be verbatim, a path
may be qualified by an alias, a type may have arguments, ranks and a question mark or be a tuple,
and blanks may stand between any two symbols.  Which characters beyond the first 128 stand in a
name is left to an alphabet.
-/

set_option autoImplicit false

namespace MigrationSquash.Code

open Text (AllBlank isBlank isWord isWordStart isAsciiWord)

/-- The characters that names start with and those that stand in them. -/
structure Alphabet where
  starts : Char → Bool
  inside : Char → Bool
  inside_of_starts : ∀ c, starts c = true → inside c = true
  starts_ascii : ∀ c, c.val.toNat < 0x80 → starts c = isWordStart c
  inside_ascii : ∀ c, c.val.toNat < 0x80 → inside c = isAsciiWord c
  visible : ∀ c, inside c = true → isBlank c = false

namespace Directive

abbrev Gap := { s : Text // AllBlank s }

/-- A name, behind an `@` if it may be spelled like a keyword. -/
structure Name (alphabet : Alphabet) where
  verbatim : Bool
  first : Char
  rest : Text
  starts : alphabet.starts first = true
  inside : ∀ c ∈ rest, alphabet.inside c = true

variable {alphabet : Alphabet}

def Name.text (name : Name alphabet) : Text :=
  (if name.verbatim then ['@'] else []) ++ name.first :: name.rest

/-- A name behind a dot. -/
structure Member (alphabet : Alphabet) where
  before : Gap
  after : Gap
  name : Name alphabet

def Member.text (member : Member alphabet) : Text :=
  member.before.1 ++ '.' :: (member.after.1 ++ member.name.text)

/-- An alias, or `global`, with two colons behind it. -/
structure Qualifier (alphabet : Alphabet) where
  name : Name alphabet
  before : Gap
  after : Gap

def Qualifier.text (qualifier : Qualifier alphabet) : Text :=
  qualifier.name.text ++ (qualifier.before.1 ++ ':' :: ':' :: qualifier.after.1)

/-- Names with dots between them, perhaps qualified. -/
structure Path (alphabet : Alphabet) where
  qualifier : Option (Qualifier alphabet)
  head : Name alphabet
  tail : List (Member alphabet)

def Path.text (path : Path alphabet) : Text :=
  (path.qualifier.map Qualifier.text).getD [] ++
    (path.head.text ++ path.tail.flatMap Member.text)

/-- What a piece of a type is. -/
inductive Category where
  /-- The arguments behind a name, and what is named inside of the type they give. -/
  | arguments
  /-- The ranks of arrays and question marks. -/
  | marks
  | type
  | tuple
  /-- Types between commas, each perhaps with a label behind it. -/
  | list (labels : Bool)

/-- The pieces of types as they may be written. -/
inductive Written (alphabet : Alphabet) : Category → Text → Prop
  | bare : Written alphabet .arguments []
  | given {gap types : Text} (blank : AllBlank gap) (inner : Written alphabet (.list false) types) :
      Written alphabet .arguments (gap ++ '<' :: (types ++ ['>']))
  | nested {gap types more : Text} (blank : AllBlank gap)
      (inner : Written alphabet (.list false) types) (member : Member alphabet)
      (others : List (Member alphabet)) (behind : Written alphabet .arguments more) :
      Written alphabet .arguments
        (gap ++ '<' :: (types ++ '>' :: (member.text ++ (others.flatMap Member.text ++ more))))
  | unmarked : Written alphabet .marks []
  | rank {gap commas more : Text} (blank : AllBlank gap)
      (separate : ∀ c ∈ commas, c = ',' ∨ isBlank c = true)
      (behind : Written alphabet .marks more) :
      Written alphabet .marks (gap ++ '[' :: (commas ++ ']' :: more))
  | nullable {gap more : Text} (blank : AllBlank gap) (behind : Written alphabet .marks more) :
      Written alphabet .marks (gap ++ '?' :: more)
  | named {arguments marks : Text} (path : Path alphabet)
      (inner : Written alphabet .arguments arguments) (behind : Written alphabet .marks marks) :
      Written alphabet .type (path.text ++ (arguments ++ marks))
  | ofTuple {s : Text} (inner : Written alphabet .tuple s) : Written alphabet .type s
  | tuple {first others marks : Text} (one : Written alphabet (.list true) first)
      (more : Written alphabet (.list true) others) (behind : Written alphabet .marks marks) :
      Written alphabet .tuple ('(' :: (first ++ ',' :: (others ++ ')' :: marks)))
  | item {labels : Bool} {before type after : Text} (blankBefore : AllBlank before)
      (inner : Written alphabet .type type) (blankAfter : AllBlank after) :
      Written alphabet (.list labels) (before ++ (type ++ after))
  | labelled {before type gap after : Text} (blankBefore : AllBlank before)
      (inner : Written alphabet .type type) (blank : AllBlank gap) (label : Name alphabet)
      (blankAfter : AllBlank after) :
      Written alphabet (.list true) (before ++ (type ++ (gap ++ (label.text ++ after))))
  | comma {labels : Bool} {front back : Text} (first : Written alphabet (.list labels) front)
      (others : Written alphabet (.list labels) back) :
      Written alphabet (.list labels) (front ++ ',' :: back)

/-- A type that has a name. -/
structure TypeName (alphabet : Alphabet) where
  path : Path alphabet
  arguments : Text
  marks : Text
  given : Written alphabet .arguments arguments
  marked : Written alphabet .marks marks

def TypeName.suffix (type : TypeName alphabet) : Text := type.arguments ++ type.marks

def TypeName.text (type : TypeName alphabet) : Text := type.path.text ++ type.suffix

/-- What a directive imports. -/
inductive Target (alphabet : Alphabet) where
  | names (type : TypeName alphabet) (bare : type.suffix = [])
  | members (gap : Gap) (type : TypeName alphabet) (unmarked : type.marks = [])
      (apart : gap.1 = [] → type.text.head? = some '@')
  | renamed (name : Name alphabet) (before after : Gap) (type : TypeName alphabet)
  | renamedTuple (name : Name alphabet) (before after : Gap) (type : Text)
      (written : Written alphabet .tuple type)

def Target.text : Target alphabet → Text
  | .names type _ => type.text
  | .members gap type _ _ => "static".toList ++ (gap.1 ++ type.text)
  | .renamed name before after type => name.text ++ (before.1 ++ '=' :: (after.1 ++ type.text))
  | .renamedTuple name before after type _ => name.text ++ (before.1 ++ '=' :: (after.1 ++ type))

section TargetText

variable (name : Name alphabet) (before after gap : Gap) (type : TypeName alphabet)

@[simp] theorem Target.text_names (bare : type.suffix = []) :
    text (.names type bare) = type.text := rfl

@[simp] theorem Target.text_members (unmarked : type.marks = [])
    (apart : gap.1 = [] → type.text.head? = some '@') :
    text (.members gap type unmarked apart) = "static".toList ++ (gap.1 ++ type.text) := rfl

@[simp] theorem Target.text_renamed :
    text (.renamed name before after type) =
      name.text ++ (before.1 ++ '=' :: (after.1 ++ type.text)) := rfl

@[simp] theorem Target.text_renamedTuple {tuple : Text} (written : Written alphabet .tuple tuple) :
    text (.renamedTuple name before after tuple written) =
      name.text ++ (before.1 ++ '=' :: (after.1 ++ tuple)) := rfl

end TargetText

end Directive

/-- A directive on one line.  Between a keyword and what follows it there is a blank, unless an
`@` follows. -/
structure Directive (alphabet : Alphabet) where
  globalGap : Option Directive.Gap
  globalApart : ∀ gap ∈ globalGap, gap.1 ≠ []
  gap : Directive.Gap
  target : Directive.Target alphabet
  apart : gap.1 = [] → target.text.head? = some '@'
  space : Directive.Gap

variable {alphabet : Alphabet}

def Directive.text (directive : Directive alphabet) : Text :=
  (directive.globalGap.map fun gap => "global".toList ++ gap.1).getD [] ++
    ("using".toList ++ (directive.gap.1 ++ (directive.target.text ++ (directive.space.1 ++ [';']))))

namespace Alphabet

theorem ne_of_inside {c d : Char} (inside : alphabet.inside c = true) (ascii : d.val.toNat < 0x80)
    (noWord : isAsciiWord d = false) : c ≠ d := by
  rintro rfl
  rw [alphabet.inside_ascii c ascii, noWord] at inside
  cases inside

end Alphabet

namespace Directive

/-- A text that no blank ends. -/
def EndsVisible (s : Text) : Prop := ∀ c ∈ s.getLast?, isBlank c = false

namespace EndsVisible

variable {s t : Text} {c : Char}

theorem append (first : EndsVisible s) (second : EndsVisible t) : EndsVisible (s ++ t) := by
  intro c last
  rw [List.getLast?_append, Option.mem_def, Option.or_eq_some_iff] at last
  rcases last with inSecond | ⟨-, inFirst⟩
  · exact second c inSecond
  · exact first c inFirst

theorem cons (visible : isBlank c = false) (ends : EndsVisible s) : EndsVisible (c :: s) :=
  append (s := [c]) (by rintro d ⟨⟩; exact visible) ends

theorem append_cons (front : Text) (ends : EndsVisible (c :: s)) :
    EndsVisible (front ++ c :: s) := by
  intro d last
  rw [List.getLast?_append_cons] at last
  exact ends d last

theorem trimEnd (ends : EndsVisible s) : Text.trimEnd s = s := by
  cases last : s.getLast? with
  | none =>
      rw [List.getLast?_eq_none_iff.1 last]
      rfl
  | some c =>
      obtain ⟨front, rfl⟩ := List.getLast?_eq_some_iff.1 last
      exact Text.trimEnd_concat_of_visible front (ends c last)

end EndsVisible

namespace Name

variable (name : Name alphabet)

theorem inside_first : alphabet.inside name.first = true :=
  alphabet.inside_of_starts _ name.starts

theorem mem_text {c : Char} (member : c ∈ name.text) : c = '@' ∨ alphabet.inside c = true := by
  unfold text at member
  rcases List.mem_append.1 member with marked | inName
  · left
    split at marked
    · exact List.mem_singleton.1 marked
    · cases marked
  · right
    rcases List.mem_cons.1 inName with rfl | inRest
    · exact name.inside_first
    · exact name.inside c inRest

theorem isBlank_of_mem_text {c : Char} (member : c ∈ name.text) : isBlank c = false := by
  rcases name.mem_text member with rfl | inside
  · decide
  · exact alphabet.visible c inside

theorem endsVisible : EndsVisible name.text :=
  fun _ last => name.isBlank_of_mem_text (List.mem_of_getLast? last)

/-- What a name starts with is no blank and none of the marks. -/
theorem exists_cons : ∃ c rest, name.text = c :: rest ∧
    (c = '@' ∨ alphabet.inside c = true) := by
  cases split : name.text with
  | nil => simp [text] at split
  | cons c rest => exact ⟨c, rest, rfl, name.mem_text (by rw [split]; exact List.mem_cons_self)⟩

theorem semicolon_not_mem : ';' ∉ name.text := by
  intro member
  rcases name.mem_text member with same | inside
  · exact absurd same (by decide)
  · exact alphabet.ne_of_inside inside (by decide) (by decide) rfl

end Name

theorem semicolon_not_mem_of_allBlank {s : Text} (blank : AllBlank s) : ';' ∉ s :=
  not_mem_of_allBlank blank (by decide)

namespace Member

theorem endsVisible (member : Member alphabet) : EndsVisible member.text := by
  obtain ⟨c, rest, split, -⟩ := member.name.exists_cons
  have name := member.name.endsVisible
  rw [split] at name
  rw [text, split]
  exact .append_cons _ (.cons (by decide) (.append_cons _ name))

theorem semicolon_not_mem (member : Member alphabet) : ';' ∉ member.text := by
  have before := semicolon_not_mem_of_allBlank member.before.2
  have after := semicolon_not_mem_of_allBlank member.after.2
  have name := member.name.semicolon_not_mem
  simp [text, before, after, name]

theorem flatMap_endsVisible (members : List (Member alphabet)) :
    EndsVisible (members.flatMap text) := by
  induction members with
  | nil => exact nofun
  | cons member others ih => exact member.endsVisible.append ih

theorem semicolon_not_mem_flatMap (members : List (Member alphabet)) :
    ';' ∉ members.flatMap text := by
  intro inside
  obtain ⟨member, -, found⟩ := List.mem_flatMap.1 inside
  exact member.semicolon_not_mem found

end Member

namespace Path

theorem semicolon_not_mem (path : Path alphabet) : ';' ∉ path.text := by
  have head := path.head.semicolon_not_mem
  have tail := Member.semicolon_not_mem_flatMap path.tail
  unfold text
  cases path.qualifier with
  | none => simp [head, tail]
  | some qualifier =>
      have name := qualifier.name.semicolon_not_mem
      have before := semicolon_not_mem_of_allBlank qualifier.before.2
      have after := semicolon_not_mem_of_allBlank qualifier.after.2
      simp [Qualifier.text, head, tail, name, before, after]

end Path

namespace Written

variable {category : Category} {s : Text}

/-- No type holds the character that ends a directive. -/
theorem semicolon_not_mem (written : Written alphabet category s) : ';' ∉ s := by
  induction written with
  | bare | unmarked => exact List.not_mem_nil
  | given blank _ inner => simp [semicolon_not_mem_of_allBlank blank, inner]
  | nested blank _ member others _ inner behind =>
      have names := Member.semicolon_not_mem_flatMap others
      simp [semicolon_not_mem_of_allBlank blank, inner, member.semicolon_not_mem, names, behind]
  | rank blank separate _ behind =>
      have commas : ';' ∉ _ := fun member => by
        rcases separate ';' member with same | space
        · exact absurd same (by decide)
        · exact absurd space (by decide)
      simp [semicolon_not_mem_of_allBlank blank, commas, behind]
  | nullable blank _ behind => simp [semicolon_not_mem_of_allBlank blank, behind]
  | named path _ _ inner behind => simp [path.semicolon_not_mem, inner, behind]
  | ofTuple _ inner => exact inner
  | tuple _ _ _ one more behind => simp [one, more, behind]
  | item before _ after inner =>
      simp [semicolon_not_mem_of_allBlank before, semicolon_not_mem_of_allBlank after, inner]
  | labelled before _ blank label after inner =>
      simp [semicolon_not_mem_of_allBlank before, semicolon_not_mem_of_allBlank after,
        semicolon_not_mem_of_allBlank blank, label.semicolon_not_mem, inner]
  | comma _ _ first others => simp [first, others]

theorem endsVisible_arguments (written : Written alphabet .arguments s) : EndsVisible s := by
  generalize kind : Category.arguments = category at written
  induction written with
  | bare => exact nofun
  | given =>
      have bracket : EndsVisible ['>'] := .cons (by decide) nofun
      exact .append_cons _ (.cons (by decide) (.append_cons _ bracket))
  | nested _ _ member others _ _ behind =>
      have names := member.endsVisible.append
        ((Member.flatMap_endsVisible others).append (behind kind))
      exact .append_cons _ (.cons (by decide) (.append_cons _ (.cons (by decide) names)))
  | _ => cases kind

theorem endsVisible_marks (written : Written alphabet .marks s) : EndsVisible s := by
  generalize kind : Category.marks = category at written
  induction written with
  | unmarked => exact nofun
  | rank _ _ _ behind =>
      exact .append_cons _ (.cons (by decide) (.append_cons _ (.cons (by decide) (behind kind))))
  | nullable _ _ behind => exact .append_cons _ (.cons (by decide) (behind kind))
  | _ => cases kind

end Written

theorem TypeName.endsVisible_suffix (type : TypeName alphabet) : EndsVisible type.suffix :=
  type.given.endsVisible_arguments.append type.marked.endsVisible_marks

theorem TypeName.semicolon_not_mem_suffix (type : TypeName alphabet) : ';' ∉ type.suffix := by
  simp [suffix, type.given.semicolon_not_mem, type.marked.semicolon_not_mem]

end Directive

namespace Directive

variable (directive : Directive alphabet)

theorem exists_cons : ∃ c rest, directive.text = c :: rest ∧ isBlank c = false := by
  cases wide : directive.globalGap with
  | none => exact ⟨'u', _, by rw [text, wide]; rfl, by decide⟩
  | some gap => exact ⟨'g', _, by rw [text, wide]; rfl, by decide⟩

/-- A directive starts and ends with visible characters. -/
theorem trim_text : Text.trim directive.text = directive.text := by
  obtain ⟨c, rest, split, visible⟩ := directive.exists_cons
  have ends : ∃ front, directive.text = front ++ [';'] :=
    ⟨(directive.globalGap.map fun gap => "global".toList ++ gap.1).getD [] ++ ("using".toList ++
      (directive.gap.1 ++ (directive.target.text ++ directive.space.1))), by simp [text]⟩
  exact Text.trim_of_visible (by rw [split]; rfl) (List.getLast?_eq_some_iff.2 ends) visible
    (by decide)

end Directive

end MigrationSquash.Code
