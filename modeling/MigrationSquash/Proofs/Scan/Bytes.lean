import MigrationSquash.Proofs.Scan.Lexer
import MigrationSquash.Text.Utf8

/-!
# Scanning bytes

Everything that a scan looks for is ASCII, and no byte of a longer encoding is.  Main
statement: threaded over lines, the scan of characters and the scan of bytes both find the
structural braces that one pass over the joined text finds, and leave open what it leaves
open.
-/

set_option autoImplicit false

namespace MigrationSquash.Code

open Text (joinLines Unbroken encodeUtf8)

/-- The scan of a line by its bytes: a backslash takes one byte along, which may be the
first of several that make up a character. -/
def scanBytesFrom : Context → Nat → Bytes → LineScan
  | context, _, [] => ⟨[], context.carry⟩
  | .lineComment, _, _ => ⟨[], .code⟩
  | .code, offset, 0x2F :: 0x2F :: rest => scanBytesFrom .lineComment (offset + 2) rest
  | .code, offset, 0x2F :: 0x2A :: rest => scanBytesFrom .blockComment (offset + 2) rest
  | .code, offset, 0x40 :: 0x22 :: rest => scanBytesFrom .verbatim (offset + 2) rest
  | .code, offset, 0x40 :: 0x24 :: 0x22 :: rest => scanBytesFrom .verbatim (offset + 3) rest
  | .code, offset, 0x24 :: 0x40 :: 0x22 :: rest => scanBytesFrom .verbatim (offset + 3) rest
  | .code, offset, 0x22 :: rest => scanBytesFrom .string (offset + 1) rest
  | .code, offset, 0x27 :: rest => scanBytesFrom .character (offset + 1) rest
  | .code, offset, 0x7B :: rest => (scanBytesFrom .code (offset + 1) rest).cons ⟨offset, .opening⟩
  | .code, offset, 0x7D :: rest => (scanBytesFrom .code (offset + 1) rest).cons ⟨offset, .closing⟩
  | .code, offset, _ :: rest => scanBytesFrom .code (offset + 1) rest
  | .string, _, [0x5C] => ⟨[], .code⟩
  | .string, offset, 0x5C :: _ :: rest => scanBytesFrom .string (offset + 2) rest
  | .string, offset, 0x22 :: rest => scanBytesFrom .code (offset + 1) rest
  | .string, offset, _ :: rest => scanBytesFrom .string (offset + 1) rest
  | .character, _, [0x5C] => ⟨[], .code⟩
  | .character, offset, 0x5C :: _ :: rest => scanBytesFrom .character (offset + 2) rest
  | .character, offset, 0x27 :: rest => scanBytesFrom .code (offset + 1) rest
  | .character, offset, _ :: rest => scanBytesFrom .character (offset + 1) rest
  | .verbatim, offset, 0x22 :: 0x22 :: rest => scanBytesFrom .verbatim (offset + 2) rest
  | .verbatim, offset, 0x22 :: rest => scanBytesFrom .code (offset + 1) rest
  | .verbatim, offset, _ :: rest => scanBytesFrom .verbatim (offset + 1) rest
  | .blockComment, offset, 0x2A :: 0x2F :: rest => scanBytesFrom .code (offset + 2) rest
  | .blockComment, offset, _ :: rest => scanBytesFrom .blockComment (offset + 1) rest

/-- The structural braces of one line, found in its encoding. -/
def scanBytes (line : Text) (carry : Carry) : LineScan :=
  scanBytesFrom carry.context 0 (encodeUtf8 line)


variable {context : Context} {c : Char} {rest : Text} {offset : Nat} {b : UInt8} {bytes : Bytes}

/-- A character is encoded as itself, or else in bytes none of which is ASCII. -/
theorem utf8EncodeChar_cases (c : Char) :
    c.toNat < 128 ∧ String.utf8EncodeChar c = [UInt8.ofNat c.toNat] ∨
      128 ≤ c.toNat ∧ ∀ b ∈ String.utf8EncodeChar c, 128 ≤ b.toNat := by
  have bound := Text.toNat_val_lt c
  change c.val.toNat < 128 ∧ String.utf8EncodeChar c = [UInt8.ofNat c.val.toNat] ∨
    128 ≤ c.val.toNat ∧ ∀ b ∈ String.utf8EncodeChar c, 128 ≤ b.toNat
  have byteValue {n : Nat} (small : n < 256) (high : 128 ≤ n) : 128 ≤ (UInt8.ofNat n).toNat := by
    rwa [Text.toNat_ofNat_of_lt small]
  unfold String.utf8EncodeChar
  generalize c.val.toNat = n at bound
  dsimp only
  split
  · exact .inl ⟨by omega, rfl⟩
  · right
    refine ⟨by omega, ?_⟩
    split
    · simp only [List.forall_mem_cons]
      exact ⟨byteValue (by omega) (by omega), byteValue (by omega) (by omega), nofun⟩
    · split
      · simp only [List.forall_mem_cons]
        exact ⟨byteValue (by omega) (by omega), byteValue (by omega) (by omega),
          byteValue (by omega) (by omega), nofun⟩
      · simp only [List.forall_mem_cons]
        exact ⟨byteValue (by omega) (by omega), byteValue (by omega) (by omega),
          byteValue (by omega) (by omega), byteValue (by omega) (by omega), nofun⟩

theorem encodeUtf8_cons (c : Char) (rest : Text) :
    encodeUtf8 (c :: rest) = String.utf8EncodeChar c ++ encodeUtf8 rest := rfl

theorem exists_utf8EncodeChar (c : Char) :
    ∃ first more, String.utf8EncodeChar c = first :: more ∧ more.length + 1 = c.utf8Size ∧
      ∀ b ∈ more, 128 ≤ b.toNat := by
  have length := String.length_utf8EncodeChar c
  rcases utf8EncodeChar_cases c with ⟨-, single⟩ | ⟨-, high⟩
  · rw [single] at length ⊢
    exact ⟨_, [], rfl, length, nofun⟩
  · cases encoding : String.utf8EncodeChar c with
    | nil =>
        rw [encoding] at length
        exact absurd length c.utf8Size_pos.ne
    | cons first more =>
        rw [encoding] at length high
        exact ⟨first, more, rfl, length, fun b member => high b (List.mem_cons_of_mem first member)⟩

/-- Two ASCII characters are the same if their bytes are. -/
theorem eq_of_ofNat_eq {d : Char} (low : c.toNat < 128) (ascii : d.toNat < 128)
    (same : UInt8.ofNat c.toNat = UInt8.ofNat d.toNat) : c = d := by
  have values := congrArg UInt8.toNat same
  rw [Text.toNat_ofNat_of_lt (by omega), Text.toNat_ofNat_of_lt (by omega)] at values
  exact Char.toNat_inj.1 values

/-- An encoded text starts with ASCII characters only if the text does. -/
theorem not_starts_encoded (start : Text) (ascii : ∀ d ∈ start, d.toNat < 128)
    (no : ∀ more, rest ≠ start ++ more) (more : Bytes) :
    encodeUtf8 rest ≠ encodeUtf8 start ++ more := by
  induction start generalizing rest with
  | nil => exact absurd rfl (no rest)
  | cons d others ih =>
      intro same
      have small := ascii d List.mem_cons_self
      have encoding : String.utf8EncodeChar d = [UInt8.ofNat d.toNat] := by
        rcases utf8EncodeChar_cases d with ⟨-, single⟩ | ⟨high, -⟩
        · exact single
        · omega
      rw [encodeUtf8_cons, encoding, List.append_assoc, List.singleton_append] at same
      cases rest with
      | nil => cases same
      | cons c inside =>
          rw [encodeUtf8_cons] at same
          rcases utf8EncodeChar_cases c with ⟨low, single⟩ | ⟨-, high⟩
          · rw [single, List.singleton_append] at same
            obtain ⟨equal, later⟩ := List.cons.inj same
            obtain rfl := eq_of_ofNat_eq low small equal
            exact ih (fun e member => ascii e (List.mem_cons_of_mem c member))
              (fun front split => no front (by rw [split]; rfl)) later
          · obtain ⟨first, others, split, -, -⟩ := exists_utf8EncodeChar c
            have firstHigh := high first (split ▸ List.mem_cons_self)
            rw [split, List.cons_append] at same
            rw [(List.cons.inj same).1, Text.toNat_ofNat_of_lt (by omega)] at firstHigh
            omega

/-- No byte of a longer encoding is looked for. -/
theorem scanBytesFrom_high (high : 128 ≤ b.toNat) :
    scanBytesFrom context offset (b :: bytes) = scanBytesFrom context (offset + 1) bytes := by
  cases context with
  | lineComment => cases bytes <;> rfl
  | _ =>
      rw [scanBytesFrom]
      all_goals
        intros
        subst_vars
        contradiction

theorem scanBytesFrom_append (more : Bytes) (high : ∀ b ∈ bytes, 128 ≤ b.toNat) :
    scanBytesFrom context offset (bytes ++ more) =
      scanBytesFrom context (offset + bytes.length) more := by
  induction bytes generalizing offset with
  | nil => rfl
  | cons b later ih =>
      rw [List.cons_append, scanBytesFrom_high (high b List.mem_cons_self),
        ih fun d member => high d (List.mem_cons_of_mem b member), List.length_cons,
        Nat.add_right_comm, Nat.add_assoc]

/-- A step of the scan over a character need only be checked for ASCII. -/
theorem scanBytesFrom_cons
    (ascii : c.toNat < 128 →
      scanBytesFrom context offset (UInt8.ofNat c.toNat :: encodeUtf8 rest) =
        scanBytesFrom context (offset + 1) (encodeUtf8 rest)) :
    scanBytesFrom context offset (encodeUtf8 (c :: rest)) =
      scanBytesFrom context (offset + c.utf8Size) (encodeUtf8 rest) := by
  rw [encodeUtf8_cons, ← String.length_utf8EncodeChar]
  rcases utf8EncodeChar_cases c with ⟨low, single⟩ | ⟨-, high⟩
  · rw [single, List.singleton_append, ascii low]
    rfl
  · exact scanBytesFrom_append (encodeUtf8 rest) high

/-- Inside a literal a backslash takes the first byte of a character along; the others are
passed over. -/
theorem scanBytesFrom_escape (literal : context = .string ∨ context = .character) :
    scanBytesFrom context offset (encodeUtf8 ('\\' :: c :: rest)) =
      scanBytesFrom context (offset + 1 + c.utf8Size) (encodeUtf8 rest) := by
  obtain ⟨first, more, split, length, high⟩ := exists_utf8EncodeChar c
  have bytes : encodeUtf8 ('\\' :: c :: rest) = 0x5C :: first :: (more ++ encodeUtf8 rest) := by
    rw [encodeUtf8_cons, encodeUtf8_cons, split]
    rfl
  have taken : scanBytesFrom context offset (0x5C :: first :: (more ++ encodeUtf8 rest)) =
      scanBytesFrom context (offset + 2) (more ++ encodeUtf8 rest) := by
    obtain rfl | rfl := literal <;> rfl
  rw [bytes, taken, scanBytesFrom_append _ high, ← length]
  congr 1
  omega

/-- A scan of bytes sees no lookahead that the scan of characters does not see. -/
theorem not_starts_bytes (low : c.toNat < 128) {d : Char} (start : Text)
    (ascii : ∀ e ∈ d :: start, e.toNat < 128) (no : ∀ more, c = d → rest ≠ start ++ more)
    (more : Bytes) (same : UInt8.ofNat c.toNat = UInt8.ofNat d.toNat) :
    encodeUtf8 rest ≠ encodeUtf8 start ++ more :=
  have equal := eq_of_ofNat_eq low (ascii d List.mem_cons_self) same
  not_starts_encoded start (fun e member => ascii e (List.mem_cons_of_mem d member))
    (fun front => no front equal) more

theorem ofNat_toNat_ne (low : c.toNat < 128) {d : Char} (ascii : d.toNat < 128) (other : c ≠ d) :
    UInt8.ofNat c.toNat ≠ UInt8.ofNat d.toNat :=
  fun same => other (eq_of_ofNat_eq low ascii same)

/-- The scan of the bytes of a line is the scan of its characters. -/
theorem scanBytesFrom_encodeUtf8 (context : Context) (offset : Nat) (line : Text) :
    scanBytesFrom context offset (encodeUtf8 line) = scanFrom context offset line := by
  fun_induction scanFrom context offset line with
  | case1 context offset => cases context <;> rfl
  | case2 s offset nonempty => cases encodeUtf8 s <;> rfl
  | case3 offset rest ih | case4 offset rest ih | case5 offset rest ih | case6 offset rest ih
    | case7 offset rest ih | case8 offset rest ih | case9 offset rest ih | case15 offset rest ih
    | case19 offset rest ih | case21 offset rest ih | case24 offset rest ih => exact ih
  | case10 offset rest ih => exact congrArg (LineScan.cons ⟨offset, .opening⟩) ih
  | case11 offset rest ih => exact congrArg (LineScan.cons ⟨offset, .closing⟩) ih
  | case13 offset | case17 offset => rfl
  | case14 offset c rest ih => rw [scanBytesFrom_escape (.inl rfl), ih]
  | case18 offset c rest ih => rw [scanBytesFrom_escape (.inr rfl), ih]
  | case12 offset c rest noLine noBlock noVerbatim noLeft noRight noString noCharacter noOpening
      noClosing ih =>
      rw [scanBytesFrom_cons, ih]
      intro low
      rw [scanBytesFrom]
      · exact not_starts_bytes low (d := '/') ['/'] (by simp) noLine
      · exact not_starts_bytes low (d := '/') ['*'] (by simp) noBlock
      · exact not_starts_bytes low (d := '@') ['"'] (by simp) noVerbatim
      · exact not_starts_bytes low (d := '@') ['$', '"'] (by simp) noLeft
      · exact not_starts_bytes low (d := '$') ['@', '"'] (by simp) noRight
      · exact ofNat_toNat_ne low (d := '"') (by decide) noString
      · exact ofNat_toNat_ne low (d := '\'') (by decide) noCharacter
      · exact ofNat_toNat_ne low (d := '{') (by decide) noOpening
      · exact ofNat_toNat_ne low (d := '}') (by decide) noClosing
  | case16 offset c rest noLast noEscape noQuote ih =>
      have noBackslash := ne_backslash noLast noEscape
      rw [scanBytesFrom_cons, ih]
      intro low
      rw [scanBytesFrom]
      · exact fun same => absurd same (ofNat_toNat_ne low (d := '\\') (by decide) noBackslash)
      · exact fun _ _ same => absurd same (ofNat_toNat_ne low (d := '\\') (by decide) noBackslash)
      · exact ofNat_toNat_ne low (d := '"') (by decide) noQuote
  | case20 offset c rest noLast noEscape noQuote ih =>
      have noBackslash := ne_backslash noLast noEscape
      rw [scanBytesFrom_cons, ih]
      intro low
      rw [scanBytesFrom]
      · exact fun same => absurd same (ofNat_toNat_ne low (d := '\\') (by decide) noBackslash)
      · exact fun _ _ same => absurd same (ofNat_toNat_ne low (d := '\\') (by decide) noBackslash)
      · exact ofNat_toNat_ne low (d := '\'') (by decide) noQuote
  | case22 offset rest noQuote ih =>
      have bytes : encodeUtf8 ('"' :: rest) = 0x22 :: encodeUtf8 rest := rfl
      rw [bytes, scanBytesFrom, ih]
      exact not_starts_encoded ['"'] (by simp) noQuote
  | case23 offset c rest _ noQuote ih =>
      rw [scanBytesFrom_cons, ih]
      intro low
      rw [scanBytesFrom]
      · exact fun _ same => absurd same (ofNat_toNat_ne low (d := '"') (by decide) noQuote)
      · exact ofNat_toNat_ne low (d := '"') (by decide) noQuote
  | case25 offset c rest noEnd ih =>
      rw [scanBytesFrom_cons, ih]
      intro low
      rw [scanBytesFrom]
      exact not_starts_bytes low (d := '*') ['/'] (by simp) noEnd

theorem scanBytes_eq_scanLine : scanBytes = scanLine := by
  funext line carry
  exact scanBytesFrom_encodeUtf8 carry.context 0 line

/-- Threaded over lines, scans of characters and scans of bytes both are one pass over the
characters of the joined text. -/
theorem scan_eq_lexFrom (lines : List Text) (carry : Carry)
    (unbroken : ∀ line ∈ lines, Unbroken line) :
    scanThrough scanLine carry 0 lines = lexFrom carry.context 0 ⟨0, 0⟩ (joinLines lines) ∧
      scanThrough scanBytes carry 0 lines = lexFrom carry.context 0 ⟨0, 0⟩ (joinLines lines) := by
  rw [scanBytes_eq_scanLine]
  exact ⟨scanThrough_scanLine unbroken carry 0, scanThrough_scanLine unbroken carry 0⟩

/-- An escaped character of two bytes, a backslash at the end of a line, and a verbatim
string and a comment over lines, with braces inside and outside of them. -/
def mixedLines : List Text :=
  ["Run(\"\\é\x7d\") \x7b // \x7d".toList, "Add('\\".toList, "Sql($@\"\x7b \"\"ü".toList,
    "\\\"); \x7d /* \x7b".toList, "* / \x7d */ \x7d".toList]

theorem scan_eq_lexFrom_mixedLines :
    (∀ line ∈ mixedLines, Unbroken line) ∧
      scanThrough scanBytes .code 0 mixedLines =
        lexFrom .code 0 ⟨0, 0⟩ (joinLines mixedLines) ∧
      lexFrom .code 0 ⟨0, 0⟩ (joinLines mixedLines) =
        ⟨[(⟨0, 12⟩, .opening), (⟨3, 5⟩, .closing), (⟨4, 9⟩, .closing)], .code⟩ := by
  have unbroken : ∀ line ∈ mixedLines, Unbroken line := by unfold Unbroken; decide
  exact ⟨unbroken, (scan_eq_lexFrom mixedLines .code unbroken).2, by decide⟩

end MigrationSquash.Code
