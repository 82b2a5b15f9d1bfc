/-!
# Text

A text is its list of characters.  Offsets reported to the outside count UTF-8 bytes, so
this module also measures a text in bytes and cuts it at a byte offset.  Main statement:
cutting at the width of a beginning gives back that beginning and what follows it.
-/

set_option autoImplicit false

namespace MigrationSquash

abbrev Text := List Char

/-- Where something stands in a list that is cut in two, it stands behind the cut or before it. -/
theorem append_cons_cases {α : Type} {front back left right : List α} {a : α}
    (same : front ++ back = left ++ a :: right) :
    (∃ more, left = front ++ more ∧ back = more ++ a :: right) ∨
      ∃ more, front = left ++ a :: more ∧ right = more ++ back := by
  rcases List.append_eq_append_iff.1 same with ⟨more, longer, behind⟩ | ⟨more, longer, behind⟩
  · exact Or.inl ⟨more, longer, behind⟩
  · cases more with
    | nil => exact Or.inl ⟨[], by simpa using longer.symm, behind.symm⟩
    | cons b others =>
        obtain ⟨rfl, rfl⟩ := List.cons.inj behind
        exact Or.inr ⟨others, longer, rfl⟩

namespace Text

/-- The number of bytes of a text in UTF-8. -/
def width : Text → Nat
  | [] => 0
  | c :: rest => c.utf8Size + width rest

@[simp] theorem width_nil : width [] = 0 := rfl

@[simp] theorem width_cons (c : Char) (rest : Text) :
    width (c :: rest) = c.utf8Size + width rest := rfl

@[simp] theorem width_append (left right : Text) :
    width (left ++ right) = width left + width right := by
  induction left with
  | nil => simp
  | cons c rest inductionHypothesis => simp [inductionHypothesis]; omega

/-- Splits a text after the characters that fit into the given number of bytes. -/
def splitAtByte : Nat → Text → Text × Text
  | _, [] => ([], [])
  | n, c :: rest =>
      if c.utf8Size ≤ n then
        let (left, right) := splitAtByte (n - c.utf8Size) rest
        (c :: left, right)
      else
        ([], c :: rest)

def takeBytes (n : Nat) (s : Text) : Text := (splitAtByte n s).1

def dropBytes (n : Nat) (s : Text) : Text := (splitAtByte n s).2

theorem splitAtByte_zero (s : Text) : splitAtByte 0 s = ([], s) := by
  cases s with
  | nil => rfl
  | cons c rest =>
      have positive := c.utf8Size_pos
      simp [splitAtByte]
      omega

theorem splitAtByte_width_append (left right : Text) :
    splitAtByte (width left) (left ++ right) = (left, right) := by
  induction left with
  | nil => simp [splitAtByte_zero]
  | cons c rest inductionHypothesis =>
      simp [splitAtByte, inductionHypothesis]

/-- Nothing is lost where a text is cut. -/
theorem takeBytes_append_dropBytes (n : Nat) (s : Text) :
    takeBytes n s ++ dropBytes n s = s := by
  induction s generalizing n with
  | nil => rfl
  | cons c rest inductionHypothesis =>
      have step := inductionHypothesis (n - c.utf8Size)
      simp only [takeBytes, dropBytes] at step
      by_cases fits : c.utf8Size ≤ n <;>
        simp [takeBytes, dropBytes, splitAtByte, fits, step]

/-- What follows the given beginning, if the text starts with it. -/
def after? : Text → Text → Option Text
  | [], s => some s
  | _ :: _, [] => none
  | p :: beginning, c :: rest => if p = c then after? beginning rest else none

theorem after?_append (beginning rest : Text) :
    after? beginning (beginning ++ rest) = some rest := by
  induction beginning with
  | nil => rfl
  | cons c tail inductionHypothesis => simp [after?, inductionHypothesis]

theorem after?_eq_some_iff {beginning s rest : Text} :
    after? beginning s = some rest ↔ s = beginning ++ rest := by
  constructor
  · intro found
    induction beginning generalizing s with
    | nil => simpa [after?] using found
    | cons p tail inductionHypothesis =>
        cases s with
        | nil => simp [after?] at found
        | cons c more =>
            by_cases same : p = c
            · subst same
              simp only [after?, if_true] at found
              simp [inductionHypothesis found]
            · simp [after?, same] at found
  · rintro rfl
    exact after?_append beginning rest

def startsWith (beginning s : Text) : Bool := (after? beginning s).isSome

/-- What precedes the given ending, if the text ends with it. -/
def before? (ending s : Text) : Option Text :=
  (after? ending.reverse s.reverse).map List.reverse

theorem before?_eq_some_iff {ending s start : Text} :
    before? ending s = some start ↔ s = start ++ ending := by
  constructor
  · intro found
    obtain ⟨reversed, match_, rfl⟩ := Option.map_eq_some_iff.1 found
    have split := after?_eq_some_iff.1 match_
    have flipped := congrArg List.reverse split
    simpa using flipped
  · rintro rfl
    simp [before?, after?_append]

def endsWith (ending s : Text) : Bool := (before? ending s).isSome

/-- The texts with the separator written between each two of them. -/
def join (separator : Text) : List Text → Text
  | [] => []
  | [s] => s
  | s :: next :: rest => s ++ separator ++ join separator (next :: rest)

/-- Replaces every occurrence of `old` from left to right, never looking at the same
character twice; `skip` characters still belong to the last occurrence. -/
def replaceFrom (old new : Text) : Nat → Text → Text
  | _, [] => []
  | skip + 1, _ :: rest => replaceFrom old new skip rest
  | 0, c :: rest =>
      if startsWith old (c :: rest) then
        new ++ replaceFrom old new (old.length - 1) rest
      else
        c :: replaceFrom old new 0 rest

/-- Every occurrence of the non-empty `old` becomes `new`. -/
def replaceAll (old new s : Text) : Text := replaceFrom old new 0 s

/-- Texts that differ at most in the case of the letters A to Z. -/
def sameIgnoringCase (left right : Text) : Bool :=
  left.map Char.toLower == right.map Char.toLower

/-- Whether `needle` occurs somewhere in the text. -/
def contains (needle : Text) : Text → Bool
  | [] => startsWith needle []
  | c :: rest => startsWith needle (c :: rest) || contains needle rest

theorem contains_iff {needle s : Text} : contains needle s = true ↔ needle <:+: s := by
  have starts (s : Text) : startsWith needle s = true ↔ needle <+: s := by
    rw [startsWith, Option.isSome_iff_exists]
    constructor
    · rintro ⟨rest, found⟩
      exact ⟨rest, (after?_eq_some_iff.1 found).symm⟩
    · rintro ⟨rest, split⟩
      exact ⟨rest, after?_eq_some_iff.2 split.symm⟩
  induction s with
  | nil => rw [contains, starts, List.prefix_nil, List.infix_nil]
  | cons c rest inductionHypothesis =>
      rw [contains, Bool.or_eq_true, List.infix_cons_iff]
      exact or_congr (starts (c :: rest)) inductionHypothesis

/-- Whether `needle` occurs in `s`, whatever the case of the letters A to Z. -/
def containsIgnoringCase (s needle : Text) : Bool :=
  contains (needle.map Char.toLower) (s.map Char.toLower)

/-- Drops `ending` from the end, at most `limit` times. -/
def dropEndingsUpTo (ending : Text) : Nat → Text → Text
  | 0, s => s
  | limit + 1, s =>
      match before? ending s with
      | some start => dropEndingsUpTo ending limit start
      | none => s

/-- Drops `ending` from the end as often as it stands there. -/
def dropEndings (ending s : Text) : Text := dropEndingsUpTo ending s.length s

/-- What stands after the last occurrence of `mark`, or the whole text. -/
def afterLast (mark : Char) (s : Text) : Text :=
  (s.reverse.takeWhile (· ≠ mark)).reverse

end Text

end MigrationSquash
