import MigrationSquash.Proofs.Scan.Reading

/-!
# One pass over the characters

A scan that goes line by line against the lexical grammar of a whole text: from left to
right, each lexeme is as many characters as the rule for its beginning says, and a line feed
is a lexeme like any other.  Main statement: threaded over lines, the scan finds the
structural braces that the grammar finds in the joined text, and leaves open what it leaves
open.
-/

set_option autoImplicit false

namespace MigrationSquash.Code

open Text (joinLines Unbroken)

/-- The structural braces of several lines and what is open at their end. -/
structure Lexed where
  braces : List (Spot × BraceKind)
  carry : Carry
  deriving DecidableEq, Repr

def Lexed.cons (brace : Spot × BraceKind) (lexed : Lexed) : Lexed :=
  { lexed with braces := brace :: lexed.braces }

/-- The lexeme that a text starts with: the context behind it and its number of characters.

A backslash takes the character after it along, unless that ends the line; every other
lexeme of more than one character is one of those spelled out here. -/
def lexeme : Context → Text → Context × Nat
  | context, '\n' :: _ => (context.carry.context, 1)
  | .code, '/' :: '/' :: _ => (.lineComment, 2)
  | .code, '/' :: '*' :: _ => (.blockComment, 2)
  | .code, '@' :: '"' :: _ => (.verbatim, 2)
  | .code, '@' :: '$' :: '"' :: _ => (.verbatim, 3)
  | .code, '$' :: '@' :: '"' :: _ => (.verbatim, 3)
  | .code, '"' :: _ => (.string, 1)
  | .code, '\'' :: _ => (.character, 1)
  | .string, '\\' :: c :: _ => (.string, if c = '\n' then 1 else 2)
  | .string, '"' :: _ => (.code, 1)
  | .character, '\\' :: c :: _ => (.character, if c = '\n' then 1 else 2)
  | .character, '\'' :: _ => (.code, 1)
  | .verbatim, '"' :: '"' :: _ => (.verbatim, 2)
  | .verbatim, '"' :: _ => (.code, 1)
  | .blockComment, '*' :: '/' :: _ => (.code, 2)
  | context, _ => (context, 1)

/-- The spot behind a character. -/
def Spot.after (spot : Spot) (c : Char) : Spot :=
  if c = '\n' then ⟨spot.line + 1, 0⟩ else ⟨spot.line, spot.offset + c.utf8Size⟩

/-- Lexes a text, the first `pending` characters of which belong to a lexeme already read. -/
def lexFrom : Context → Nat → Spot → Text → Lexed
  | context, _, _, [] => ⟨[], context.carry⟩
  | context, pending + 1, spot, c :: rest => lexFrom context pending (spot.after c) rest
  | context, 0, spot, c :: rest =>
      let (behind, length) := lexeme context (c :: rest)
      let later := lexFrom behind (length - 1) (spot.after c) rest
      match if context = .code then braceKind? c else none with
      | some kind => later.cons (spot, kind)
      | none => later

/-- Scans line after line, each with what the line before left open, and numbers the lines. -/
def scanThrough (scan : Text → Carry → LineScan) : Carry → Nat → List Text → Lexed
  | carry, _, [] => ⟨[], carry⟩
  | carry, number, line :: rest =>
      let found := scan line carry
      let later := scanThrough scan found.carry (number + 1) rest
      ⟨found.braces.map (fun brace => (⟨number, brace.offset⟩, brace.kind)) ++ later.braces,
        later.carry⟩

variable {context behind : Context} {c : Char} {line rest tail : Text} {number offset : Nat}

theorem Spot.after_of_ne (noFeed : c ≠ '\n') :
    (⟨number, offset⟩ : Spot).after c = ⟨number, offset + c.utf8Size⟩ := if_neg noFeed

/-- What may follow a line: nothing, or a line feed. -/
def EndsLine (tail : Text) : Prop := ∀ c ∈ tail.head?, c = '\n'

/-- No lexeme looks for a line feed, so a beginning that it looks for lies in the line. -/
theorem not_starts_append (start : Text) (ends : EndsLine tail) (noFeed : '\n' ∉ start)
    (no : ∀ more, rest ≠ start ++ more) (more : Text) : rest ++ tail ≠ start ++ more := by
  induction start generalizing rest with
  | nil => exact absurd rfl (no rest)
  | cons d others ih =>
      intro same
      cases rest with
      | nil =>
          rw [List.nil_append, List.cons_append] at same
          subst same
          exact noFeed (ends d rfl ▸ List.mem_cons_self)
      | cons first inside =>
          obtain ⟨rfl, later⟩ := List.cons.inj same
          exact ih (Unbroken.tail noFeed) (fun front equal => no front (by rw [equal]; rfl)) later

theorem lexeme_code (noFeed : c ≠ '\n') (noLine : ∀ more, c = '/' → rest ≠ '/' :: more)
    (noBlock : ∀ more, c = '/' → rest ≠ '*' :: more)
    (noVerbatim : ∀ more, c = '@' → rest ≠ '"' :: more)
    (noLeft : ∀ more, c = '@' → rest ≠ '$' :: '"' :: more)
    (noRight : ∀ more, c = '$' → rest ≠ '@' :: '"' :: more) (noString : c ≠ '"')
    (noCharacter : c ≠ '\'') : lexeme .code (c :: rest) = (.code, 1) := by
  unfold lexeme
  split <;> simp_all

/-- A lexeme of one character. -/
theorem lexFrom_single (spot : Spot) (single : lexeme context (c :: rest) = (behind, 1))
    (plain : (if context = .code then braceKind? c else none) = none) :
    lexFrom context 0 spot (c :: rest) = lexFrom behind 0 (spot.after c) rest := by
  rw [lexFrom, single]
  simp only [plain]

/-- A character of a line that changes nothing is passed over. -/
theorem lexFrom_passed (noFeed : c ≠ '\n') (single : lexeme context (c :: rest) = (context, 1))
    (plain : (if context = .code then braceKind? c else none) = none) :
    lexFrom context 0 ⟨number, offset⟩ (c :: rest) =
      lexFrom context 0 ⟨number, offset + c.utf8Size⟩ rest := by
  rw [lexFrom_single _ single plain, Spot.after_of_ne noFeed]

/-- What is found on a line, and then what follows it. -/
def LineScan.into (scan : LineScan) (number : Nat) (later : Carry → Lexed) : Lexed :=
  ⟨scan.braces.map (fun brace => (⟨number, brace.offset⟩, brace.kind)) ++ (later scan.carry).braces,
    (later scan.carry).carry⟩

/-- At the end of a line only what reaches over lines matters. -/
theorem lexFrom_tail (ends : EndsLine tail) (context : Context) (spot : Spot) :
    lexFrom context 0 spot tail = lexFrom context.carry.context 0 spot tail := by
  cases tail with
  | nil => cases context <;> rfl
  | cons c rest =>
      obtain rfl : c = '\n' := ends c rfl
      cases context <;> rfl

theorem lexeme_literal (noFeed : c ≠ '\n') (noBackslash : c ≠ '\\')
    (inside : context = .string ∧ c ≠ '"' ∨ context = .character ∧ c ≠ '\'') :
    lexeme context (c :: rest) = (context, 1) := by
  unfold lexeme
  split <;> simp_all

/-- A quote that no other one follows ends a verbatim string. -/
theorem lexeme_quote (ends : EndsLine tail) (noQuote : ∀ more, rest ≠ '"' :: more) :
    lexeme .verbatim ('"' :: (rest ++ tail)) = (.code, 1) := by
  have closes : ∀ more, rest ++ tail ≠ '"' :: more :=
    not_starts_append ['"'] ends (by decide) noQuote
  unfold lexeme
  split <;> simp_all

theorem lexeme_verbatim (noFeed : c ≠ '\n') (noQuote : c ≠ '"') :
    lexeme .verbatim (c :: rest) = (.verbatim, 1) := by
  unfold lexeme
  split <;> simp_all

theorem lexeme_blockComment (noFeed : c ≠ '\n') (ends : EndsLine tail)
    (noEnd : ∀ more, c = '*' → rest ≠ '/' :: more) :
    lexeme .blockComment (c :: (rest ++ tail)) = (.blockComment, 1) := by
  have stays : ∀ more, c = '*' → rest ++ tail ≠ '/' :: more := fun more star =>
    not_starts_append ['/'] ends (by decide) (fun front => noEnd front star) more
  unfold lexeme
  split <;> simp_all

theorem lexFrom_lineComment (unbroken : Unbroken line) (ends : EndsLine tail) :
    lexFrom .lineComment 0 ⟨number, offset⟩ (line ++ tail) =
      lexFrom .code 0 ⟨number, offset + Text.width line⟩ tail := by
  induction line generalizing offset with
  | nil => exact lexFrom_tail ends .lineComment _
  | cons c rest ih =>
      have single : lexeme .lineComment (c :: (rest ++ tail)) = (.lineComment, 1) := by
        have noFeed := unbroken.head
        unfold lexeme
        split <;> simp_all
      rw [List.cons_append, lexFrom_passed unbroken.head single rfl, ih unbroken.tail,
        Text.width_cons, Nat.add_assoc]

/-- An escape inside a line is a lexeme of two characters. -/
theorem lexFrom_escape (literal : context = .string ∨ context = .character) (noFeed : c ≠ '\n') :
    lexFrom context 0 ⟨number, offset⟩ ('\\' :: c :: rest) =
      lexFrom context 0 ⟨number, offset + 1 + c.utf8Size⟩ rest := by
  have pair : lexeme context ('\\' :: c :: rest) = (context, 2) := by
    obtain rfl | rfl := literal <;> simp [lexeme, noFeed]
  have noBrace : (if context = .code then braceKind? '\\' else none) = none := by
    obtain rfl | rfl := literal <;> rfl
  rw [lexFrom, pair]
  simp only [noBrace]
  rw [lexFrom, Spot.after, if_neg noFeed]
  rfl

/-- A backslash at the end of a line takes nothing along. -/
theorem lexFrom_lastBackslash (literal : context = .string ∨ context = .character)
    (ends : EndsLine tail) :
    lexFrom context 0 ⟨number, offset⟩ ('\\' :: tail) =
      lexFrom .code 0 ⟨number, offset + 1⟩ tail := by
  have ended : context.carry.context = .code := by obtain rfl | rfl := literal <;> rfl
  have single : lexeme context ('\\' :: tail) = (context, 1) := by
    cases tail with
    | nil => obtain rfl | rfl := literal <;> rfl
    | cons d more =>
        obtain rfl : d = '\n' := ends d rfl
        obtain rfl | rfl := literal <;> rfl
  rw [lexFrom_single _ single (by obtain rfl | rfl := literal <;> rfl),
    Spot.after_of_ne (by decide), lexFrom_tail ends, ended]
  rfl

/-- The lexer goes over a line as the scan does and then over what follows it. -/
theorem lexFrom_line {stop : Nat} (unbroken : Unbroken line) (ends : EndsLine tail)
    (context : Context) (number : Nat) (reached : offset + Text.width line = stop) :
    lexFrom context 0 ⟨number, offset⟩ (line ++ tail) =
      (scanFrom context offset line).into number fun carry =>
        lexFrom carry.context 0 ⟨number, stop⟩ tail := by
  fun_induction scanFrom context offset line with
  | case1 context offset =>
      subst reached
      exact lexFrom_tail ends context _
  | case2 s offset nonempty =>
      subst reached
      exact lexFrom_lineComment unbroken ends
  | case3 offset rest ih | case4 offset rest ih | case5 offset rest ih | case21 offset rest ih
    | case24 offset rest ih =>
      change offset + (1 + (1 + Text.width rest)) = stop at reached
      exact ih unbroken.tail.tail (by omega)
  | case6 offset rest ih | case7 offset rest ih =>
      change offset + (1 + (1 + (1 + Text.width rest))) = stop at reached
      exact ih unbroken.tail.tail.tail (by omega)
  | case8 offset rest ih | case9 offset rest ih | case15 offset rest ih | case19 offset rest ih =>
      change offset + (1 + Text.width rest) = stop at reached
      exact ih unbroken.tail (by omega)
  | case10 offset rest ih =>
      change offset + (1 + Text.width rest) = stop at reached
      exact congrArg (Lexed.cons (⟨number, offset⟩, .opening)) (ih unbroken.tail (by omega))
  | case11 offset rest ih =>
      change offset + (1 + Text.width rest) = stop at reached
      exact congrArg (Lexed.cons (⟨number, offset⟩, .closing)) (ih unbroken.tail (by omega))
  | case13 offset =>
      subst reached
      exact lexFrom_lastBackslash (.inl rfl) ends
  | case17 offset =>
      subst reached
      exact lexFrom_lastBackslash (.inr rfl) ends
  | case14 offset c rest ih =>
      change offset + (1 + (c.utf8Size + Text.width rest)) = stop at reached
      rw [List.cons_append, List.cons_append, lexFrom_escape (.inl rfl) unbroken.tail.head]
      exact ih unbroken.tail.tail (by omega)
  | case18 offset c rest ih =>
      change offset + (1 + (c.utf8Size + Text.width rest)) = stop at reached
      rw [List.cons_append, List.cons_append, lexFrom_escape (.inr rfl) unbroken.tail.head]
      exact ih unbroken.tail.tail (by omega)
  | case12 offset c rest noLine noBlock noVerbatim noLeft noRight noString noCharacter noOpening
      noClosing ih =>
      have inside {d : Char} (start : Text) (noFeed : '\n' ∉ start)
          (no : ∀ more, c = d → rest ≠ start ++ more) (more : Text) (same : c = d) :
          rest ++ tail ≠ start ++ more :=
        not_starts_append start ends noFeed (fun front => no front same) more
      have single : lexeme .code (c :: (rest ++ tail)) = (.code, 1) :=
        lexeme_code unbroken.head (inside ['/'] (by decide) noLine)
          (inside ['*'] (by decide) noBlock) (inside ['"'] (by decide) noVerbatim)
          (inside ['$', '"'] (by decide) noLeft) (inside ['@', '"'] (by decide) noRight)
          noString noCharacter
      have plain : braceKind? c = none := by
        rw [braceKind?, if_neg noOpening, if_neg noClosing]
      rw [List.cons_append, lexFrom_passed unbroken.head single ((if_pos rfl).trans plain)]
      exact ih unbroken.tail (by rw [← reached, Text.width_cons, Nat.add_assoc])
  | case16 offset c rest noLast noEscape noQuote ih =>
      have single : lexeme .string (c :: (rest ++ tail)) = (.string, 1) :=
        lexeme_literal unbroken.head (ne_backslash noLast noEscape) (.inl ⟨rfl, noQuote⟩)
      rw [List.cons_append, lexFrom_passed unbroken.head single rfl]
      exact ih unbroken.tail (by rw [← reached, Text.width_cons, Nat.add_assoc])
  | case20 offset c rest noLast noEscape noQuote ih =>
      have single : lexeme .character (c :: (rest ++ tail)) = (.character, 1) :=
        lexeme_literal unbroken.head (ne_backslash noLast noEscape) (.inr ⟨rfl, noQuote⟩)
      rw [List.cons_append, lexFrom_passed unbroken.head single rfl]
      exact ih unbroken.tail (by rw [← reached, Text.width_cons, Nat.add_assoc])
  | case22 offset rest noQuote ih =>
      change offset + (1 + Text.width rest) = stop at reached
      rw [List.cons_append, lexFrom_single _ (lexeme_quote ends noQuote) rfl]
      exact ih unbroken.tail (by omega)
  | case23 offset c rest _ noQuote ih =>
      rw [List.cons_append,
        lexFrom_passed unbroken.head (lexeme_verbatim unbroken.head noQuote) rfl]
      exact ih unbroken.tail (by rw [← reached, Text.width_cons, Nat.add_assoc])
  | case25 offset c rest noEnd ih =>
      have single : lexeme .blockComment (c :: (rest ++ tail)) = (.blockComment, 1) :=
        lexeme_blockComment unbroken.head ends fun more star => noEnd more star
      rw [List.cons_append, lexFrom_passed unbroken.head single rfl]
      exact ih unbroken.tail (by rw [← reached, Text.width_cons, Nat.add_assoc])

/-- The scan of line after line is one pass over the joined lines. -/
theorem scanThrough_scanLine {lines : List Text} (unbroken : ∀ line ∈ lines, Unbroken line)
    (carry : Carry) (number : Nat) :
    scanThrough scanLine carry number lines =
      lexFrom carry.context 0 ⟨number, 0⟩ (joinLines lines) := by
  induction lines generalizing carry number with
  | nil => cases carry <;> rfl
  | cons line later ih =>
      have here := unbroken line List.mem_cons_self
      have further := ih fun l member => unbroken l (List.mem_cons_of_mem line member)
      have step : scanThrough scanLine carry number (line :: later) =
          (scanLine line carry).into number fun left =>
            lexFrom left.context 0 ⟨number + 1, 0⟩ (joinLines later) :=
        congrArg ((scanLine line carry).into number) (funext fun left => further left (number + 1))
      cases later with
      | nil =>
          have nothing : EndsLine [] := nofun
          have whole := lexFrom_line here nothing carry.context number (Nat.zero_add _)
          rw [List.append_nil] at whole
          exact step.trans whole.symm
      | cons next others =>
          have feed : EndsLine ('\n' :: joinLines (next :: others)) := by
            rintro c ⟨⟩
            rfl
          have whole := lexFrom_line here feed carry.context number (Nat.zero_add _)
          rw [step, Text.joinLines_cons_cons, whole]
          congr 1
          funext left
          cases left <;> rfl

end MigrationSquash.Code
