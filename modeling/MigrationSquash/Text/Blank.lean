import MigrationSquash.Text.Basic

/-!
# Blank characters

The characters with the property White_Space, and what trimming them from the ends of a
text leaves.
-/

set_option autoImplicit false

namespace MigrationSquash.Text

/-- The property White_Space. -/
def isBlank (c : Char) : Bool :=
  let n := c.val.toNat
  (9 ≤ n && n ≤ 13) || n == 0x20 || n == 0x85 || n == 0xA0 || n == 0x1680 ||
    (0x2000 ≤ n && n ≤ 0x200A) || n == 0x2028 || n == 0x2029 || n == 0x202F ||
    n == 0x205F || n == 0x3000

/-- A blank that can indent a line. -/
def isIndent (c : Char) : Bool := c == ' ' || c == '\t'

theorem isBlank_of_isIndent {c : Char} (indent : isIndent c = true) : isBlank c = true := by
  simp only [isIndent, Bool.or_eq_true, beq_iff_eq] at indent
  rcases indent with rfl | rfl <;> decide

def trimStart (s : Text) : Text := s.dropWhile isBlank

def trimEnd (s : Text) : Text := (s.reverse.dropWhile isBlank).reverse

def trim (s : Text) : Text := trimEnd (trimStart s)

/-- Whether trimming leaves nothing. -/
def isBlankText (s : Text) : Bool := s.all isBlank

/-- The spaces and tabs that a line starts with. -/
def indentation (line : Text) : Text := line.takeWhile isIndent

/-- One level of indentation in what this library writes. -/
def indentStep : Text := "    ".toList

end MigrationSquash.Text
