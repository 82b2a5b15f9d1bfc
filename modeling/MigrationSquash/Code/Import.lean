import MigrationSquash.Text.Blank
import MigrationSquash.Text.Word

/-!
# Import declarations

Which lines are `using` directives, and sets of such declarations in their order.  Main
statement: a set stays strictly ordered, so each declaration stands in it once.
-/

set_option autoImplicit false

namespace MigrationSquash.Code

/-- What follows `word` and at least one blank. -/
def afterKeyword? (word : Text) (s : Text) : Option Text :=
  match Text.after? word s with
  | some (c :: rest) => if Text.isBlank c then some (Text.trimStart rest) else none
  | _ => none

/-- What follows an identifier all of whose characters after the first fulfil `inside`;
the first one is a letter of the alphabet or an underscore, perhaps after an `@`. -/
def afterIdentifier? (inside : Char → Bool) (s : Text) : Option Text :=
  match s with
  | '@' :: c :: rest => if Text.isWordStart c then some (rest.dropWhile inside) else none
  | c :: rest => if Text.isWordStart c then some (rest.dropWhile inside) else none
  | [] => none

/-- A character of a name that dots may divide. -/
def isPathChar (c : Char) : Bool := Text.isWord c || c == '.'

/-- What follows `name =` and blanks. -/
def afterAlias? (s : Text) : Option Text := do
  let rest ← afterIdentifier? Text.isWord s
  let value ← Text.after? ['='] (Text.trimStart rest)
  return Text.trimStart value

/-- Whether the text is a list of type arguments, and nothing but blanks after it. -/
def isTypeArguments (s : Text) : Bool :=
  let trimmed := Text.trimEnd s
  Text.startsWith ['<'] trimmed && Text.endsWith ['>'] trimmed

/-- Whether the text is what ends a directive after the imported name: type arguments
or nothing, a semicolon, and blanks. -/
def isDirectiveEnd (s : Text) : Bool :=
  let arguments := s.takeWhile (· ≠ ';')
  match s.dropWhile (· ≠ ';') with
  | [] => false
  | _ :: rest =>
      Text.isBlankText rest && (Text.isBlankText arguments || isTypeArguments arguments)

/-- Whether the text names what is imported and ends there. -/
def isImportedName (s : Text) : Bool := (afterIdentifier? isPathChar s).any isDirectiveEnd

/-- Whether the text is an imported name, perhaps behind an alias. -/
def isImportTarget (s : Text) : Bool := (afterAlias? s).any isImportedName || isImportedName s

/-- Whether the line is a `using` directive.  A type may bear the name `static`. -/
def isImport (line : Text) : Bool :=
  let start := Text.trimStart line
  let directive := (afterKeyword? "global".toList start).getD start
  match afterKeyword? "using".toList directive with
  | none => false
  | some target =>
      (afterKeyword? "static".toList target).any isImportTarget || isImportTarget target

/-- Inserts a text into an ordered list unless it is there. -/
def insertOrdered (s : Text) : List Text → List Text
  | [] => [s]
  | t :: rest =>
      if s < t then s :: t :: rest
      else if s = t then t :: rest
      else t :: insertOrdered s rest

theorem mem_insertOrdered {s t : Text} {list : List Text} :
    t ∈ insertOrdered s list ↔ t = s ∨ t ∈ list := by
  induction list with
  | nil => simp [insertOrdered]
  | cons first rest inductionHypothesis =>
      unfold insertOrdered
      split
      · simp
      · split
        case isTrue same =>
          subst same
          simp
        case isFalse =>
          simp only [List.mem_cons, inductionHypothesis]
          constructor
          · rintro (isFirst | isNew | inRest) <;> simp [*]
          · rintro (isNew | isFirst | inRest) <;> simp [*]

theorem pairwise_insertOrdered {s : Text} {list : List Text}
    (ordered : list.Pairwise (· < ·)) : (insertOrdered s list).Pairwise (· < ·) := by
  induction list with
  | nil => simp [insertOrdered]
  | cons first rest inductionHypothesis =>
      have split_ := List.pairwise_cons.1 ordered
      unfold insertOrdered
      split
      case isTrue smaller =>
        refine List.pairwise_cons.2 ⟨?_, ordered⟩
        intro t member
        rcases List.mem_cons.1 member with rfl | inRest
        · exact smaller
        · exact List.lt_trans smaller (split_.1 t inRest)
      case isFalse notSmaller =>
        split
        case isTrue => exact ordered
        case isFalse different =>
          refine List.pairwise_cons.2 ⟨?_, inductionHypothesis split_.2⟩
          intro t member
          rcases mem_insertOrdered.1 member with rfl | inRest
          · rcases Std.Trichotomous.rel_or_eq_or_rel_swap (r := fun a b : Text => a < b)
              (a := t) (b := first) with less | equal | greater
            · exact absurd less notSmaller
            · exact absurd equal different
            · exact greater
          · exact split_.1 t inRest

/-- Import declarations, each once and in the order of their characters. -/
structure ImportSet where
  items : List Text
  ordered : items.Pairwise (· < ·)

namespace ImportSet

def empty : ImportSet := ⟨[], .nil⟩

instance : EmptyCollection ImportSet := ⟨empty⟩

/-- Adds a declaration; blanks around it do not count. -/
def insert (imports : ImportSet) (declaration : Text) : ImportSet :=
  ⟨insertOrdered (Text.trim declaration) imports.items, pairwise_insertOrdered imports.ordered⟩

def contains (imports : ImportSet) (declaration : Text) : Bool :=
  imports.items.contains (Text.trim declaration)

def size (imports : ImportSet) : Nat := imports.items.length

def isEmpty (imports : ImportSet) : Bool := imports.items.isEmpty

def ofList (declarations : List Text) : ImportSet := declarations.foldl insert empty

/-- The declarations of both sets. -/
def union (left right : ImportSet) : ImportSet :=
  ⟨right.items.foldl (fun items s => insertOrdered s items) left.items, by
    have keeps : ∀ (added items : List Text), items.Pairwise (· < ·) →
        (added.foldl (fun items s => insertOrdered s items) items).Pairwise (· < ·) := by
      intro added
      induction added with
      | nil => exact fun _ ordered => ordered
      | cons s rest inductionHypothesis =>
          exact fun items ordered => inductionHypothesis _ (pairwise_insertOrdered ordered)
    exact keeps right.items left.items left.ordered⟩

/-- The declarations among the lines of a file. -/
def ofLines (lines : List Text) : ImportSet := ofList (lines.filter isImport)

end ImportSet

end MigrationSquash.Code
