import MigrationSquash.Code.Scan
import MigrationSquash.Text.Blank

/-!
# Scanning one character at a time

A scan of a line decides with up to two characters of lookahead.  The same scan is a walk
that keeps what it has just read in its mode and never looks ahead, so that a text can be
cut anywhere: what the walk finds in a text is what it finds in the first part and then,
from the mode reached there, in the second one.
-/

set_option autoImplicit false

namespace MigrationSquash.Code

/-- What the characters read so far make of the next one. -/
inductive Mode where
  | code
  | afterSlash
  | afterAt
  | afterAtDollar
  | character
  | characterEscape
  | string
  | stringEscape
  | verbatim
  | afterQuote
  | lineComment
  | blockComment
  | afterStar
  deriving DecidableEq, Repr

namespace Mode

/-- The mode after a character of code that nothing before it has a claim on. -/
def ofCode (c : Char) : Mode :=
  if c = '/' then .afterSlash
  else if c = '@' then .afterAt
  else if c = '"' then .string
  else if c = '\'' then .character
  else .code

/-- A quote in a verbatim string closes it, unless the next character is a quote too; so
what follows the quote is code as long as it is no quote. -/
def step : Mode → Char → Mode
  | .code, c => ofCode c
  | .afterSlash, c =>
      if c = '/' then .lineComment else if c = '*' then .blockComment else ofCode c
  | .afterAt, c => if c = '"' then .verbatim else if c = '$' then .afterAtDollar else ofCode c
  | .afterAtDollar, c => if c = '"' then .verbatim else ofCode c
  | .character, c =>
      if c = '\\' then .characterEscape else if c = '\'' then .code else .character
  | .characterEscape, _ => .character
  | .string, c => if c = '\\' then .stringEscape else if c = '"' then .code else .string
  | .stringEscape, _ => .string
  | .verbatim, c => if c = '"' then .afterQuote else .verbatim
  | .afterQuote, c => if c = '"' then .verbatim else ofCode c
  | .lineComment, _ => .lineComment
  | .blockComment, c => if c = '*' then .afterStar else .blockComment
  | .afterStar, c =>
      if c = '/' then .code else if c = '*' then .afterStar else .blockComment

/-- Whether the next character is code if it is a brace. -/
def isCode : Mode → Bool
  | .code | .afterSlash | .afterAt | .afterAtDollar | .afterQuote => true
  | _ => false

/-- What a line leaves open that ends in the mode. -/
def carry : Mode → Carry
  | .verbatim => .verbatim
  | .blockComment | .afterStar => .blockComment
  | _ => .code

theorem carry_of_isCode {mode : Mode} (inCode : mode.isCode = true) : mode.carry = .code := by
  cases mode <;> first | rfl | cases inCode

end Mode

def Context.mode : Context → Mode
  | .code => .code
  | .character => .character
  | .string => .string
  | .verbatim => .verbatim
  | .lineComment => .lineComment
  | .blockComment => .blockComment

def Carry.mode (carry : Carry) : Mode := carry.context.mode

@[simp] theorem Carry.carry_mode (carry : Carry) : carry.mode.carry = carry := by
  cases carry <;> rfl

@[simp] theorem Context.carry_mode (context : Context) : context.mode.carry = context.carry := by
  cases context <;> rfl

def BraceKind.char : BraceKind → Char
  | .opening => '{'
  | .closing => '}'

def braceKind? (c : Char) : Option BraceKind :=
  if c = '{' then some .opening else if c = '}' then some .closing else none

theorem braceKind?_eq_some_iff {c : Char} {kind : BraceKind} :
    braceKind? c = some kind ↔ c = kind.char := by
  cases kind <;> simp only [braceKind?, BraceKind.char] <;> split <;> simp_all

@[simp] theorem braceKind?_char (kind : BraceKind) : braceKind? kind.char = some kind :=
  braceKind?_eq_some_iff.2 rfl

namespace Mode

/-- The structural brace that the next character is. -/
def braceAt? (mode : Mode) (c : Char) : Option BraceKind :=
  if mode.isCode then braceKind? c else none

theorem braceAt?_eq_some_iff {mode : Mode} {c : Char} {kind : BraceKind} :
    mode.braceAt? c = some kind ↔ mode.isCode = true ∧ c = kind.char := by
  unfold braceAt?
  split <;> simp_all [braceKind?_eq_some_iff]

/-- The mode after a text. -/
def run (mode : Mode) (s : Text) : Mode := s.foldl step mode

/-- The structural braces of a text that starts `offset` bytes into its line. -/
def braces : Mode → Nat → Text → List Brace
  | _, _, [] => []
  | mode, offset, c :: rest =>
      ((mode.braceAt? c).map (⟨offset, ·⟩)).toList ++
        (mode.step c).braces (offset + c.utf8Size) rest

/-- The kinds of the structural braces of a text. -/
def kinds : Mode → Text → List BraceKind
  | _, [] => []
  | mode, c :: rest => (mode.braceAt? c).toList ++ (mode.step c).kinds rest

variable (mode : Mode) (offset : Nat) (c : Char) (s left right : Text)

@[simp] theorem run_nil : mode.run [] = mode := rfl

@[simp] theorem run_cons : mode.run (c :: s) = (mode.step c).run s := rfl

@[simp] theorem run_append : mode.run (left ++ right) = (mode.run left).run right := by
  simp [run]

@[simp] theorem kinds_nil : mode.kinds [] = [] := rfl

theorem kinds_append :
    mode.kinds (left ++ right) = mode.kinds left ++ (mode.run left).kinds right := by
  induction left generalizing mode with
  | nil => rfl
  | cons c rest ih => simp [kinds, ih]

theorem braces_append :
    mode.braces offset (left ++ right) =
      mode.braces offset left ++ (mode.run left).braces (offset + Text.width left) right := by
  induction left generalizing mode offset with
  | nil => simp [braces]
  | cons c rest ih => simp [braces, ih, Nat.add_assoc]

theorem map_kind_braces : (mode.braces offset s).map (·.kind) = mode.kinds s := by
  induction s generalizing mode offset with
  | nil => rfl
  | cons c rest ih => cases here : mode.braceAt? c <;> simp [braces, kinds, ih, here]

/-- What a scan of a text from the mode finds. -/
def scan : LineScan := ⟨mode.braces offset s, (mode.run s).carry⟩

theorem scan_cons_of_none (plain : mode.braceAt? c = none) :
    mode.scan offset (c :: s) = (mode.step c).scan (offset + c.utf8Size) s := by
  simp [scan, braces, plain]

theorem scan_cons_of_some {kind : BraceKind} (structural : mode.braceAt? c = some kind) :
    mode.scan offset (c :: s) =
      ((mode.step c).scan (offset + c.utf8Size) s).cons ⟨offset, kind⟩ := by
  simp [scan, braces, structural, LineScan.cons]

variable {offset c s}

/-- A slash that starts no comment leaves no trace. -/
theorem scan_afterSlash (noLine : ∀ rest, s ≠ '/' :: rest) (noBlock : ∀ rest, s ≠ '*' :: rest) :
    Mode.afterSlash.scan offset s = Mode.code.scan offset s := by
  cases s with
  | nil => rfl
  | cons c rest =>
      have notSlash : c ≠ '/' := fun same => noLine rest (by rw [same])
      have notStar : c ≠ '*' := fun same => noBlock rest (by rw [same])
      simp [scan, braces, braceAt?, isCode, step, notSlash, notStar]

theorem scan_afterAtDollar (noString : ∀ rest, s ≠ '"' :: rest) :
    Mode.afterAtDollar.scan offset s = Mode.code.scan offset s := by
  cases s with
  | nil => rfl
  | cons c rest =>
      have notQuote : c ≠ '"' := fun same => noString rest (by rw [same])
      simp [scan, braces, braceAt?, isCode, step, notQuote]

theorem scan_afterAt (noString : ∀ rest, s ≠ '"' :: rest)
    (noDollar : ∀ rest, s ≠ '$' :: '"' :: rest) :
    Mode.afterAt.scan offset s = Mode.code.scan offset s := by
  cases s with
  | nil => rfl
  | cons c rest =>
      have notQuote : c ≠ '"' := fun same => noString rest (by rw [same])
      by_cases dollar : c = '$'
      · subst dollar
        have later : Mode.afterAtDollar.scan (offset + '$'.utf8Size) rest =
            Mode.code.scan (offset + '$'.utf8Size) rest :=
          scan_afterAtDollar fun more same => noDollar more (by rw [same])
        rw [scan_cons_of_none .afterAt offset '$' rest rfl,
          scan_cons_of_none .code offset '$' rest rfl]
        exact later
      · simp [scan, braces, braceAt?, isCode, step, notQuote, dollar]

theorem scan_afterQuote (noQuote : ∀ rest, s ≠ '"' :: rest) :
    Mode.afterQuote.scan offset s = Mode.code.scan offset s := by
  cases s with
  | nil => rfl
  | cons c rest =>
      have notQuote : c ≠ '"' := fun same => noQuote rest (by rw [same])
      simp [scan, braces, braceAt?, isCode, step, notQuote]

theorem scan_afterStar (noSlash : ∀ rest, s ≠ '/' :: rest) :
    Mode.afterStar.scan offset s = Mode.blockComment.scan offset s := by
  cases s with
  | nil => rfl
  | cons c rest =>
      have notSlash : c ≠ '/' := fun same => noSlash rest (by rw [same])
      simp [scan, braces, braceAt?, isCode, step, notSlash]

theorem scan_lineComment : Mode.lineComment.scan offset s = ⟨[], .code⟩ := by
  induction s generalizing offset with
  | nil => rfl
  | cons c rest ih => rw [scan_cons_of_none .lineComment offset c rest rfl]; exact ih

/-- A character of code that starts nothing leaves no trace. -/
theorem scan_ofCode (noLine : ∀ rest, c = '/' → s ≠ '/' :: rest)
    (noBlock : ∀ rest, c = '/' → s ≠ '*' :: rest) (noVerbatim : ∀ rest, c = '@' → s ≠ '"' :: rest)
    (noInterpolated : ∀ rest, c = '@' → s ≠ '$' :: '"' :: rest)
    (noString : c ≠ '"') (noCharacter : c ≠ '\'') :
    (ofCode c).scan offset s = Mode.code.scan offset s := by
  by_cases slash : c = '/'
  · subst slash
    exact scan_afterSlash (fun rest => noLine rest rfl) (fun rest => noBlock rest rfl)
  · by_cases sign : c = '@'
    · subst sign
      exact scan_afterAt (fun rest => noVerbatim rest rfl) (fun rest => noInterpolated rest rfl)
    · simp [ofCode, slash, sign, noString, noCharacter]

end Mode

/-- In a literal the scan gives a backslash two rules, for the end of the line and before it. -/
theorem ne_backslash {c : Char} {rest : Text} (noLast : c = '\\' → rest ≠ [])
    (noEscape : ∀ d more, c = '\\' → rest ≠ d :: more) : c ≠ '\\' := by
  intro backslash
  cases rest with
  | nil => exact noLast backslash rfl
  | cons d more => exact noEscape d more backslash rfl

/-- The scan with lookahead is the walk. -/
theorem scanFrom_eq_scan (context : Context) (offset : Nat) (s : Text) :
    scanFrom context offset s = context.mode.scan offset s := by
  fun_induction scanFrom context offset s with
  | case1 context offset => simp [Mode.scan, Mode.braces]
  | case2 s offset nonempty => exact Mode.scan_lineComment.symm
  | case10 offset rest ih =>
      rw [ih]
      exact (Mode.scan_cons_of_some .code offset '{' rest rfl).symm
  | case11 offset rest ih =>
      rw [ih]
      exact (Mode.scan_cons_of_some .code offset '}' rest rfl).symm
  | case12 offset c rest noLine noBlock noVerbatim noLeft noRight noString noCharacter noOpening
      noClosing ih =>
      have plain : Mode.code.braceAt? c = none := by
        rw [Mode.braceAt?, braceKind?, if_neg noOpening, if_neg noClosing, ite_self]
      rw [ih, Context.mode, Mode.scan_cons_of_none _ _ _ _ plain]
      exact (Mode.scan_ofCode noLine noBlock noVerbatim noLeft noString noCharacter).symm
  | case13 offset | case17 offset => rfl
  | case14 offset c rest ih | case18 offset c rest ih =>
      rw [ih, Context.mode, Mode.scan_cons_of_none _ _ _ _ rfl, Mode.scan_cons_of_none _ _ _ _ rfl]
      rfl
  | case16 offset c rest noLast noEscape noQuote ih
    | case20 offset c rest noLast noEscape noQuote ih =>
      rw [ih, Context.mode, Mode.scan_cons_of_none _ _ _ _ rfl, Mode.step,
        if_neg (ne_backslash noLast noEscape), if_neg noQuote]
  | case21 offset rest ih =>
      rw [ih, Context.mode, Mode.scan_cons_of_none _ _ _ _ rfl, Mode.scan_cons_of_none _ _ _ _ rfl]
      rfl
  | case22 offset rest noQuote ih =>
      rw [ih, Context.mode, Context.mode, Mode.scan_cons_of_none _ _ _ _ rfl]
      exact (Mode.scan_afterQuote noQuote).symm
  | case23 offset c rest _ noQuote ih =>
      rw [ih, Context.mode, Mode.scan_cons_of_none _ _ _ _ rfl, Mode.step, if_neg noQuote]
  | case24 offset rest ih =>
      rw [ih, Context.mode, Context.mode, Mode.scan_cons_of_none _ _ _ _ rfl,
        Mode.scan_cons_of_none _ _ _ _ rfl]
      rfl
  | case25 offset c rest noEnd ih =>
      rw [ih, Context.mode, Mode.scan_cons_of_none _ _ _ _ rfl]
      by_cases star : c = '*'
      · subst star
        exact (Mode.scan_afterStar fun more => noEnd more rfl).symm
      · rw [Mode.step, if_neg star]
  | case3 offset rest ih | case4 offset rest ih | case5 offset rest ih =>
      rw [ih, Context.mode, Context.mode, Mode.scan_cons_of_none _ _ _ _ rfl,
        Mode.scan_cons_of_none _ _ _ _ rfl]
      rfl
  | case6 offset rest ih | case7 offset rest ih =>
      rw [ih, Context.mode, Context.mode, Mode.scan_cons_of_none _ _ _ _ rfl,
        Mode.scan_cons_of_none _ _ _ _ rfl, Mode.scan_cons_of_none _ _ _ _ rfl]
      rfl
  | case8 offset rest ih | case9 offset rest ih | case15 offset rest ih | case19 offset rest ih =>
      rw [ih, Context.mode, Context.mode, Mode.scan_cons_of_none _ _ _ _ rfl]
      rfl

theorem scanLine_eq_scan (line : Text) (carry : Carry) :
    scanLine line carry = carry.mode.scan 0 line :=
  scanFrom_eq_scan carry.context 0 line

end MigrationSquash.Code
