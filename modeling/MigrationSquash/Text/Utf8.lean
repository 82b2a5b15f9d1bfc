import MigrationSquash.Text.Basic

/-!
# UTF-8

Bytes and the text they encode.  Bytes that are not well formed encode no text; read
leniently, each beginning of a sequence that is not continued as it has to be becomes one
replacement character.  Main statement: what is written is read back.
-/

set_option autoImplicit false

namespace MigrationSquash

abbrev Bytes := List UInt8

namespace Text

def encodeUtf8 (s : Text) : Bytes := s.flatMap String.utf8EncodeChar

/-- What stands at the start of some bytes: a character, or the given number of bytes
that start no character. -/
inductive Utf8Step where
  | char (c : Char) (length : Nat)
  | malformed (length : Nat)
  deriving DecidableEq, Repr

/-- A byte that continues a sequence. -/
def isContinuation (b : UInt8) : Bool := 0x80 ≤ b.toNat && b.toNat ≤ 0xBF

/-- The bytes that may follow the first byte of a sequence of three or four. -/
def isSecondByte (first second : UInt8) : Bool :=
  if first.toNat = 0xE0 then 0xA0 ≤ second.toNat && second.toNat ≤ 0xBF
  else if first.toNat = 0xED then 0x80 ≤ second.toNat && second.toNat ≤ 0x9F
  else if first.toNat = 0xF0 then 0x90 ≤ second.toNat && second.toNat ≤ 0xBF
  else if first.toNat = 0xF4 then 0x80 ≤ second.toNat && second.toNat ≤ 0x8F
  else isContinuation second

/-- The number with the six bits of a continuing byte after it. -/
def continued (n : Nat) (b : UInt8) : Nat := n * 64 + b.toNat % 64

/-- Reads the second byte of a sequence of two. -/
def twoByteStep (first : UInt8) : Bytes → Utf8Step
  | second :: _ =>
      if isContinuation second then .char (Char.ofNat (continued (first.toNat % 32) second)) 2
      else .malformed 1
  | [] => .malformed 1

/-- Reads the bytes after the first one of a sequence of three. -/
def threeByteStep (first : UInt8) : Bytes → Utf8Step
  | second :: third :: _ =>
      if isSecondByte first second then
        if isContinuation third then
          .char (Char.ofNat (continued (continued (first.toNat % 16) second) third)) 3
        else .malformed 2
      else .malformed 1
  | [second] => if isSecondByte first second then .malformed 2 else .malformed 1
  | [] => .malformed 1

/-- Reads the bytes after the first one of a sequence of four. -/
def fourByteStep (first : UInt8) : Bytes → Utf8Step
  | second :: third :: fourth :: _ =>
      if isSecondByte first second then
        if isContinuation third then
          if isContinuation fourth then
            .char (Char.ofNat
              (continued (continued (continued (first.toNat % 8) second) third) fourth)) 4
          else .malformed 3
        else .malformed 2
      else .malformed 1
  | [second, third] =>
      if isSecondByte first second then
        if isContinuation third then .malformed 3 else .malformed 2
      else .malformed 1
  | [second] => if isSecondByte first second then .malformed 2 else .malformed 1
  | [] => .malformed 1

/-- Reads the sequence of `first` and the bytes after it. -/
def utf8Step (first : UInt8) (rest : Bytes) : Utf8Step :=
  if first.toNat < 0x80 then .char (Char.ofNat first.toNat) 1
  else if first.toNat < 0xC2 then .malformed 1
  else if first.toNat < 0xE0 then twoByteStep first rest
  else if first.toNat < 0xF0 then threeByteStep first rest
  else if first.toNat < 0xF5 then fourByteStep first rest
  else .malformed 1

/-- The sequences of some bytes, the first `skip` of which belong to one already read. -/
def utf8Steps : Nat → Bytes → List Utf8Step
  | _, [] => []
  | skip + 1, _ :: rest => utf8Steps skip rest
  | 0, first :: rest =>
      let step := utf8Step first rest
      match step with
      | .char _ length => step :: utf8Steps (length - 1) rest
      | .malformed length => step :: utf8Steps (length - 1) rest

/-- The character of a sequence, if it is well formed. -/
def Utf8Step.char? : Utf8Step → Option Char
  | .char c _ => some c
  | .malformed _ => none

/-- The text that the bytes encode, if they are well-formed UTF-8. -/
def decodeUtf8? (bytes : Bytes) : Option Text := (utf8Steps 0 bytes).mapM Utf8Step.char?

/-- The text that the bytes encode, with U+FFFD for what encodes nothing. -/
def decodeUtf8Lossy (bytes : Bytes) : Text :=
  (utf8Steps 0 bytes).map fun step => step.char?.getD '\uFFFD'

/-- A small number is the value of the byte made of it. -/
theorem toNat_ofNat_of_lt {n : Nat} (small : n < 256) : (UInt8.ofNat n).toNat = n := by
  simp
  omega

theorem isContinuation_of_toNat {b : UInt8} {low : Nat} (value : b.toNat = low % 64 + 128) :
    isContinuation b = true := by
  simp only [isContinuation, value, Bool.and_eq_true, decide_eq_true_eq]
  omega

/-- A continuing byte may follow a first byte unless the number would be too small, too large or
a surrogate. -/
theorem isSecondByte_of_toNat {first second : UInt8} {low : Nat}
    (value : second.toNat = low % 64 + 128) (overThree : first.toNat = 0xE0 → 0xA0 ≤ second.toNat)
    (noSurrogate : first.toNat = 0xED → second.toNat ≤ 0x9F)
    (overFour : first.toNat = 0xF0 → 0x90 ≤ second.toNat)
    (inRange : first.toNat = 0xF4 → second.toNat ≤ 0x8F) : isSecondByte first second = true := by
  have continuing : 0x80 ≤ second.toNat ∧ second.toNat ≤ 0xBF := by omega
  unfold isSecondByte
  split
  · next same => simp [overThree same, continuing]
  split
  · next same => simp [noSurrogate same, continuing]
  split
  · next same => simp [overFour same, continuing]
  split
  · next same => simp [inRange same, continuing]
  · exact isContinuation_of_toNat value

theorem toNat_val_lt (c : Char) : c.val.toNat < 0x110000 := by
  rcases c.valid with low | high
  · exact Nat.lt_trans low (by decide)
  · exact high.2

theorem utf8Step_one {n : Nat} (high : n < 0x80) (rest : Bytes) :
    utf8Step (UInt8.ofNat n) rest = .char (Char.ofNat n) 1 := by
  have firstValue := toNat_ofNat_of_lt (n := n) (by omega)
  rw [utf8Step, if_pos (by omega), firstValue]

theorem utf8Step_two {n : Nat} (low : 0x80 ≤ n) (high : n < 0x800) (rest : Bytes) :
    utf8Step (UInt8.ofNat (n / 64 % 32 + 192)) (UInt8.ofNat (n % 64 + 128) :: rest) =
      .char (Char.ofNat n) 2 := by
  have firstValue := toNat_ofNat_of_lt (n := n / 64 % 32 + 192) (by omega)
  have secondValue := toNat_ofNat_of_lt (n := n % 64 + 128) (by omega)
  generalize UInt8.ofNat (n / 64 % 32 + 192) = first at firstValue ⊢
  generalize UInt8.ofNat (n % 64 + 128) = second at secondValue ⊢
  have whole : continued (first.toNat % 32) second = n := by
    rw [continued, firstValue, secondValue]
    omega
  rw [utf8Step, if_neg (by omega), if_neg (by omega), if_pos (by omega), twoByteStep,
    if_pos (isContinuation_of_toNat secondValue), whole]

theorem utf8Step_three {n : Nat} (low : 0x800 ≤ n) (high : n < 0x10000)
    (scalar : n < 0xD800 ∨ 0xDFFF < n) (rest : Bytes) :
    utf8Step (UInt8.ofNat (n / 4096 % 16 + 224))
        (UInt8.ofNat (n / 64 % 64 + 128) :: UInt8.ofNat (n % 64 + 128) :: rest) =
      .char (Char.ofNat n) 3 := by
  have firstValue := toNat_ofNat_of_lt (n := n / 4096 % 16 + 224) (by omega)
  have secondValue := toNat_ofNat_of_lt (n := n / 64 % 64 + 128) (by omega)
  have thirdValue := toNat_ofNat_of_lt (n := n % 64 + 128) (by omega)
  generalize UInt8.ofNat (n / 4096 % 16 + 224) = first at firstValue ⊢
  generalize UInt8.ofNat (n / 64 % 64 + 128) = second at secondValue ⊢
  generalize UInt8.ofNat (n % 64 + 128) = third at thirdValue ⊢
  have whole : continued (continued (first.toNat % 16) second) third = n := by
    rw [continued, continued, firstValue, secondValue, thirdValue]
    omega
  have secondFits : isSecondByte first second = true :=
    isSecondByte_of_toNat secondValue (by omega) (by omega) (by omega) (by omega)
  rw [utf8Step, if_neg (by omega), if_neg (by omega), if_neg (by omega), if_pos (by omega),
    threeByteStep, if_pos secondFits, if_pos (isContinuation_of_toNat thirdValue), whole]

theorem utf8Step_four {n : Nat} (low : 0x10000 ≤ n) (high : n < 0x110000) (rest : Bytes) :
    utf8Step (UInt8.ofNat (n / 262144 % 8 + 240))
        (UInt8.ofNat (n / 4096 % 64 + 128) :: UInt8.ofNat (n / 64 % 64 + 128) ::
          UInt8.ofNat (n % 64 + 128) :: rest) =
      .char (Char.ofNat n) 4 := by
  have firstValue := toNat_ofNat_of_lt (n := n / 262144 % 8 + 240) (by omega)
  have secondValue := toNat_ofNat_of_lt (n := n / 4096 % 64 + 128) (by omega)
  have thirdValue := toNat_ofNat_of_lt (n := n / 64 % 64 + 128) (by omega)
  have fourthValue := toNat_ofNat_of_lt (n := n % 64 + 128) (by omega)
  generalize UInt8.ofNat (n / 262144 % 8 + 240) = first at firstValue ⊢
  generalize UInt8.ofNat (n / 4096 % 64 + 128) = second at secondValue ⊢
  generalize UInt8.ofNat (n / 64 % 64 + 128) = third at thirdValue ⊢
  generalize UInt8.ofNat (n % 64 + 128) = fourth at fourthValue ⊢
  have whole : continued (continued (continued (first.toNat % 8) second) third) fourth = n := by
    rw [continued, continued, continued, firstValue, secondValue, thirdValue, fourthValue]
    omega
  have secondFits : isSecondByte first second = true :=
    isSecondByte_of_toNat secondValue (by omega) (by omega) (by omega) (by omega)
  rw [utf8Step, if_neg (by omega), if_neg (by omega), if_neg (by omega), if_neg (by omega),
    if_pos (by omega), fourByteStep, if_pos secondFits,
    if_pos (isContinuation_of_toNat thirdValue), if_pos (isContinuation_of_toNat fourthValue), whole]

/-- A character is read from its encoding, whatever follows it. -/
theorem utf8Step_encoded (c : Char) (rest : Bytes) :
    ∃ first more, String.utf8EncodeChar c = first :: more ∧
      utf8Step first (more ++ rest) = .char c (more.length + 1) := by
  have back : Char.ofNat c.val.toNat = c := Char.ofNat_toNat c
  have bound := toNat_val_lt c
  have scalar : c.val.toNat < 0xD800 ∨ 0xDFFF < c.val.toNat := by
    rcases c.valid with low | high
    · exact Or.inl low
    · exact Or.inr high.1
  unfold String.utf8EncodeChar
  generalize c.val.toNat = n at back bound scalar
  subst back
  dsimp only
  -- one case for each number of bytes
  split
  · exact ⟨_, _, rfl, utf8Step_one (by omega) rest⟩
  split
  · exact ⟨_, _, rfl, utf8Step_two (by omega) (by omega) rest⟩
  split
  · exact ⟨_, _, rfl, utf8Step_three (by omega) (by omega) scalar rest⟩
  · exact ⟨_, _, rfl, utf8Step_four (by omega) bound rest⟩

theorem utf8Steps_skip (skipped rest : Bytes) :
    utf8Steps skipped.length (skipped ++ rest) = utf8Steps 0 rest := by
  induction skipped with
  | nil => rfl
  | cons b more inductionHypothesis => simpa [utf8Steps] using inductionHypothesis

/-- What is written in UTF-8 is read back. -/
theorem decodeUtf8?_encodeUtf8 (s : Text) : decodeUtf8? (encodeUtf8 s) = some s := by
  induction s with
  | nil => rfl
  | cons c rest inductionHypothesis =>
      obtain ⟨first, more, encoding, step⟩ := utf8Step_encoded c (encodeUtf8 rest)
      have split_ : encodeUtf8 (c :: rest) = first :: (more ++ encodeUtf8 rest) := by
        simp [encodeUtf8, encoding]
      rw [split_, decodeUtf8?, utf8Steps, step]
      simp only [Nat.add_sub_cancel, utf8Steps_skip]
      rw [decodeUtf8?] at inductionHypothesis
      simp [Utf8Step.char?, inductionHypothesis]

end Text

end MigrationSquash
