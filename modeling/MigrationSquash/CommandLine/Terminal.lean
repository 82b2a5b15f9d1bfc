import MigrationSquash.Text.Utf8

/-!
# What a terminal shows

Messages repeat words that were given to the program.  Control characters and the sequences
that start with an escape are left out of them, so that such a word cannot steer the terminal.
Main statements: only characters that are shown remain, and a text of such characters stays as
it is.
-/

set_option autoImplicit false

namespace MigrationSquash.CommandLine.Terminal

/-- A character that is shown: one that prints, a tab, or the end of a line or page. -/
def isShown (c : Char) : Bool :=
  let n := c.val.toNat
  (0x20 ≤ n && n != 0x7F) || n == 9 || n == 10 || n == 12 || n == 13

/-- What the next character belongs to: nothing, or a part of an escape sequence. -/
inductive Sequence where
  | outside
  | escape
  | escapeRest
  | control
  | deviceStart
  | deviceParameter
  | deviceRest
  | string
  | command
  deriving DecidableEq, Repr

/-- Whether the character ends a string.  In UTF-8 one of its bytes is then 0x9C. -/
def endsString (c : Char) : Bool := (String.utf8EncodeChar c).contains 0x9C

/-- What the character after this one belongs to.  An escape always starts a sequence, and
the characters 0x18 and 0x1A always end one. -/
def Sequence.after (sequence : Sequence) (c : Char) : Sequence :=
  let n := c.val.toNat
  if n = 0x1B then .escape
  else if n = 0x18 || n = 0x1A then .outside
  else
    match sequence with
    | .outside => .outside
    | .escape =>
        if c = '[' then .control
        else if c = ']' then .command
        else if c = 'P' then .deviceStart
        else if c = 'X' || c = '^' || c = '_' then .string
        else if 0x20 ≤ n && n ≤ 0x2F then .escapeRest
        else if 0x30 ≤ n && n ≤ 0x7E then .outside
        else .escape
    | .escapeRest => if 0x30 ≤ n && n ≤ 0x7E then .outside else .escapeRest
    | .control => if 0x40 ≤ n && n ≤ 0x7E then .outside else .control
    | .deviceStart =>
        if 0x20 ≤ n && n ≤ 0x2F then .deviceRest
        else if 0x30 ≤ n && n ≤ 0x3F then .deviceParameter
        else if 0x40 ≤ n && n ≤ 0x7E then .string
        else .deviceStart
    | .deviceParameter =>
        if 0x20 ≤ n && n ≤ 0x2F then .deviceRest
        else if 0x3C ≤ n && n ≤ 0x7E then .string
        else .deviceParameter
    | .deviceRest => if 0x30 ≤ n && n ≤ 0x7E then .string else .deviceRest
    | .string => if endsString c then .outside else .string
    | .command => if n = 7 then .outside else .command

/-- Whether a character is shown where it stands.  Inside a short sequence only tabs and the
ends of lines and pages are. -/
def Sequence.shows (sequence : Sequence) (c : Char) : Bool :=
  match sequence with
  | .outside => isShown c
  | .escape | .escapeRest | .control => isShown c && c.val.toNat < 0x20
  | .deviceStart | .deviceParameter | .deviceRest | .string | .command => false

/-- What is shown of a text that starts inside a sequence.  Once a character is shown, all
that can be shown is, and the sequence goes on after it unless a character beyond U+007F has
ended it. -/
def visibleFrom : Bool → Sequence → Text → Text
  | _, _, [] => []
  | inRun, sequence, c :: rest =>
      if (inRun && isShown c) || sequence.shows c then
        c :: visibleFrom true (if c.val.toNat < 0x80 then sequence else .outside) rest
      else
        visibleFrom false (sequence.after c) rest

/-- What is shown of a text. -/
def visible (s : Text) : Text := visibleFrom false .outside s

theorem isShown_of_shows {sequence : Sequence} {c : Char} (shown : sequence.shows c = true) :
    isShown c = true := by
  unfold Sequence.shows at shown
  split at shown
  · exact shown
  · exact (Bool.and_eq_true_iff.1 shown).1
  · exact (Bool.and_eq_true_iff.1 shown).1
  · exact (Bool.and_eq_true_iff.1 shown).1
  all_goals cases shown

/-- Only characters that are shown remain. -/
theorem isShown_of_mem_visibleFrom {inRun : Bool} {sequence : Sequence} {s : Text} {c : Char}
    (member : c ∈ visibleFrom inRun sequence s) : isShown c = true := by
  induction s generalizing inRun sequence with
  | nil => cases member
  | cons first rest inductionHypothesis =>
      unfold visibleFrom at member
      split at member
      case isTrue shown =>
        rcases List.mem_cons.1 member with rfl | inRest
        · rcases Bool.or_eq_true_iff.1 shown with inShownRun | here
          · exact (Bool.and_eq_true_iff.1 inShownRun).2
          · exact isShown_of_shows here
        · exact inductionHypothesis inRest
      case isFalse => exact inductionHypothesis member

theorem visibleFrom_outside {inRun : Bool} {s : Text} (shown : ∀ c ∈ s, isShown c = true) :
    visibleFrom inRun .outside s = s := by
  induction s generalizing inRun with
  | nil => rfl
  | cons first rest inductionHypothesis =>
      have here : Sequence.outside.shows first = true := shown first List.mem_cons_self
      have inRest : visibleFrom true .outside rest = rest :=
        inductionHypothesis fun c member => shown c (List.mem_cons_of_mem first member)
      simp [visibleFrom, here, inRest]

/-- A text of characters that are shown stays as it is. -/
theorem visible_eq_self {s : Text} (shown : ∀ c ∈ s, isShown c = true) : visible s = s :=
  visibleFrom_outside shown

end MigrationSquash.CommandLine.Terminal
