import MigrationSquash.Code.Region
import MigrationSquash.Proofs.Scan.Blanks

/-!
# Lines that declare a procedure

A signature is the word `void`, blanks, the name of the procedure and an opening
parenthesis, perhaps after blanks.  Main statements: a line declares the procedure in its
text exactly if a signature stands in it that no word character precedes, and whether a line
declares the procedure depends on no more of it than what ends with such a signature.
-/

set_option autoImplicit false

namespace MigrationSquash

namespace Text

/-- The code points of the blanks. -/
def blankPoints : List Nat := [
  0x9, 0xA, 0xB, 0xC, 0xD, 0x20, 0x85, 0xA0, 0x1680, 0x2000, 0x2001, 0x2002, 0x2003, 0x2004,
  0x2005, 0x2006, 0x2007, 0x2008, 0x2009, 0x200A, 0x2028, 0x2029, 0x202F, 0x205F, 0x3000]

theorem mem_blankPoints {c : Char} (blank : isBlank c = true) : c.val.toNat ∈ blankPoints := by
  simp only [isBlank, Bool.or_eq_true, Bool.and_eq_true, decide_eq_true_eq, beq_iff_eq] at blank
  simp only [blankPoints, List.mem_cons, List.not_mem_nil, or_false]
  omega

theorem isWord_of_isBlank {c : Char} (blank : isBlank c = true) : isWord c = false := by
  have table : ∀ n ∈ blankPoints, isWord (Char.ofNat n) = false := by decide +kernel
  have noWord := table c.val.toNat (mem_blankPoints blank)
  rwa [show Char.ofNat c.val.toNat = c from Char.ofNat_toNat c] at noWord

theorem trimStart_append_of_not_isBlank {blanks : Text} (allBlank : AllBlank blanks) {c : Char}
    (visible : isBlank c = false) (rest : Text) :
    trimStart (blanks ++ c :: rest) = c :: rest := by
  rw [trimStart, List.dropWhile_append_of_pos allBlank, List.dropWhile_cons_of_neg (by simp [visible])]

end Text

namespace Procedure

/-- A signature of the procedure as it may be written. -/
def IsSignature (procedure : Procedure) (signature : Text) : Prop :=
  ∃ gap space : Text, gap ≠ [] ∧ Text.AllBlank gap ∧ Text.AllBlank space ∧
    signature = "void".toList ++ (gap ++ (procedure.name ++ (space ++ ['('])))

variable {procedure : Procedure}

theorem exists_name_eq_cons (procedure : Procedure) :
    ∃ c rest, procedure.name = c :: rest ∧ Text.isBlank c = false := by
  cases procedure with
  | up => exact ⟨'U', ['p'], rfl, by decide⟩
  | down => exact ⟨'D', ['o', 'w', 'n'], rfl, by decide⟩

theorem afterSignature?_eq_some_iff {s tail : Text} :
    procedure.afterSignature? s = some tail ↔
      ∃ signature, procedure.IsSignature signature ∧ s = signature ++ tail := by
  obtain ⟨c, others, nameSplit, visible⟩ := procedure.exists_name_eq_cons
  constructor
  · intro found
    simp only [afterSignature?, Option.bind_eq_bind, Option.bind_eq_some_iff] at found
    obtain ⟨afterVoid, isVoid, found⟩ := found
    split at found
    · cases found
    case isFalse shorter =>
      obtain ⟨afterName, isName, isOpening⟩ := Option.bind_eq_some_iff.1 found
      obtain ⟨gap, gapSplit, gapBlank⟩ := Text.blanks_append_trimStart afterVoid
      obtain ⟨space, spaceSplit, spaceBlank⟩ := Text.blanks_append_trimStart afterName
      rw [Text.after?_eq_some_iff] at isVoid isName isOpening
      refine ⟨_, ⟨gap, space, ?_, gapBlank, spaceBlank, rfl⟩, ?_⟩
      · rintro rfl
        exact shorter (congrArg List.length gapSplit).symm
      · rw [isVoid, gapSplit, isName, spaceSplit, isOpening]
        simp
  · rintro ⟨_, ⟨gap, space, gapNonempty, gapBlank, spaceBlank, rfl⟩, rfl⟩
    have afterGap : Text.trimStart (gap ++ (procedure.name ++ (space ++ '(' :: tail))) =
        procedure.name ++ (space ++ '(' :: tail) := by
      rw [nameSplit]
      exact Text.trimStart_append_of_not_isBlank gapBlank visible _
    have afterSpace : Text.trimStart (space ++ '(' :: tail) = '(' :: tail :=
      Text.trimStart_append_of_not_isBlank spaceBlank (by decide) tail
    have shorter : (procedure.name ++ (space ++ '(' :: tail)).length ≠
        (gap ++ (procedure.name ++ (space ++ '(' :: tail))).length := by
      have positive := List.length_pos_iff.2 gapNonempty
      simp only [List.length_append]
      omega
    simp only [afterSignature?, List.append_assoc, List.singleton_append, Option.bind_eq_bind,
      Text.after?_append, Option.bind_some, afterGap, afterSpace, if_neg shorter]
    exact Text.after?_append ['('] tail

theorem IsSignature.eq_cons {signature : Text} (signs : procedure.IsSignature signature) :
    ∃ rest, signature = 'v' :: rest ∧ 1 ≤ rest.length := by
  obtain ⟨gap, space, -, -, -, rfl⟩ := signs
  exact ⟨_, rfl, by simp⟩

theorem IsSignature.eq_concat {signature : Text} (signs : procedure.IsSignature signature) :
    ∃ front, signature = front ++ ['('] := by
  obtain ⟨gap, space, -, -, -, rfl⟩ := signs
  exact ⟨"void".toList ++ (gap ++ (procedure.name ++ space)), by simp⟩

/-- Whether a word that starts after the text starts there. -/
def EndsWord (before : Text) : Prop := ∀ c, before.getLast? = some c → Text.isWord c = false

theorem EndsWord.nil : EndsWord [] := fun _ last => by cases last

theorem EndsWord.append {before after : Text} (first : EndsWord before) (second : EndsWord after) :
    EndsWord (before ++ after) := by
  intro c last
  rcases List.eq_nil_or_concat after with rfl | ⟨front, d, rfl⟩
  · exact first c (by simpa using last)
  · exact second c (by simpa using last)

theorem endsWord_of_allBlank {blanks : Text} (allBlank : Text.AllBlank blanks) :
    EndsWord blanks := by
  intro c last
  obtain ⟨front, rfl⟩ := List.getLast?_eq_some_iff.1 last
  exact Text.isWord_of_isBlank (allBlank c (by simp))

/-- A signature stands in the text and starts a word there. -/
def Signs (procedure : Procedure) (line : Text) : Prop :=
  ∃ before signature after, line = before ++ (signature ++ after) ∧ EndsWord before ∧
    procedure.IsSignature signature

theorem isWordBoundary_some_iff {left : Option Char} :
    Text.isWordBoundary left (some 'v') = true ↔ ∀ c, left = some c → Text.isWord c = false := by
  have word : Text.isWord 'v' = true := by decide
  cases left <;> simp [Text.isWordBoundary, word]

theorem getLast?_cons_or (c : Char) (rest : Text) (left : Option Char) :
    (c :: rest).getLast?.or left = rest.getLast?.or (some c) := by
  rcases List.eq_nil_or_concat rest with rfl | ⟨front, last, rfl⟩
  · rfl
  · rw [List.concat_eq_append, ← List.cons_append, List.getLast?_concat, List.getLast?_concat]
    rfl

/-- The first signature of a text: where it starts and ends. -/
theorem signatureFrom?_spec {left : Option Char} {offset start stop : Nat} {s : Text}
    (found : procedure.signatureFrom? left offset s = some (start, stop)) :
    ∃ before signature after, s = before ++ (signature ++ after) ∧
      (∀ c, before.getLast?.or left = some c → Text.isWord c = false) ∧
      procedure.IsSignature signature ∧ start = offset + Text.width before ∧
      stop = offset + Text.width (before ++ signature) := by
  induction s generalizing left offset with
  | nil => cases found
  | cons c rest ih =>
      rw [signatureFrom?] at found
      split at found
      case h_1 tail here =>
        obtain ⟨rfl, rfl⟩ := Prod.mk.inj (Option.some.inj found)
        split at here
        case isTrue boundary =>
          obtain ⟨signature, signs, split_⟩ := afterSignature?_eq_some_iff.1 here
          refine ⟨[], signature, tail, split_, ?_, signs, rfl, ?_⟩
          · obtain ⟨others, rfl, -⟩ := signs.eq_cons
            obtain ⟨rfl, -⟩ := List.cons.inj split_
            simpa using isWordBoundary_some_iff.1 boundary
          · rw [split_, Text.width_append, Nat.add_sub_cancel, List.nil_append]
        case isFalse => cases here
      case h_2 =>
        obtain ⟨before, signature, after, split_, boundary, signs, starts, stops⟩ := ih found
        refine ⟨c :: before, signature, after, by rw [split_]; rfl, ?_, signs, ?_, ?_⟩
        · rwa [getLast?_cons_or]
        · rw [starts, Text.width_cons, Nat.add_assoc]
        · rw [stops, List.cons_append, Text.width_cons, Nat.add_assoc]

theorem isSome_signatureFrom? {left : Option Char} {offset : Nat} {before signature after : Text}
    (boundary : ∀ c, before.getLast?.or left = some c → Text.isWord c = false)
    (signs : procedure.IsSignature signature) :
    (procedure.signatureFrom? left offset (before ++ (signature ++ after))).isSome = true := by
  induction before generalizing left offset with
  | nil =>
      obtain ⟨others, split_, -⟩ := signs.eq_cons
      have found : procedure.afterSignature? (signature ++ after) = some after :=
        afterSignature?_eq_some_iff.2 ⟨signature, signs, rfl⟩
      have starts : Text.isWordBoundary left (some 'v') = true :=
        isWordBoundary_some_iff.2 (by simpa using boundary)
      rw [split_] at found ⊢
      simp only [List.nil_append, List.cons_append] at found ⊢
      rw [signatureFrom?, if_pos starts, found]
      rfl
  | cons c rest ih =>
      rw [List.cons_append, signatureFrom?]
      split
      · rfl
      · apply ih
        rwa [getLast?_cons_or] at boundary

theorem isDeclaredIn_iff {line : Text} :
    procedure.isDeclaredIn line = true ↔ procedure.Signs line := by
  constructor
  · intro declared
    obtain ⟨⟨start, stop⟩, found⟩ := Option.isSome_iff_exists.1 declared
    obtain ⟨before, signature, after, split_, boundary, signs, -, -⟩ := signatureFrom?_spec found
    exact ⟨before, signature, after, split_, fun c last => boundary c (by simp [last]), signs⟩
  · rintro ⟨before, signature, after, rfl, boundary, signs⟩
    exact isSome_signatureFrom? (fun c last => boundary c (by simpa using last)) signs

theorem Signs.append {line before : Text} (signs : procedure.Signs line) (boundary : EndsWord before)
    (after : Text) : procedure.Signs (before ++ (line ++ after)) := by
  obtain ⟨front, signature, back, rfl, frontBoundary, isSignature⟩ := signs
  exact ⟨before ++ front, signature, back ++ after, by simp, boundary.append frontBoundary,
    isSignature⟩

theorem Signs.append_right {line : Text} (signs : procedure.Signs line) (after : Text) :
    procedure.Signs (line ++ after) :=
  signs.append EndsWord.nil after

theorem Signs.of_append_right {line after : Text} (signs : procedure.Signs (line ++ after))
    (noParenthesis : '(' ∉ after) : procedure.Signs line := by
  obtain ⟨front, signature, back, split_, boundary, isSignature⟩ := signs
  rw [← List.append_assoc] at split_
  obtain ⟨sigFront, rfl⟩ := isSignature.eq_concat
  rcases List.append_eq_append_iff.1 split_ with ⟨more, longer, rest⟩ | ⟨more, shorter, rest⟩
  · rcases List.eq_nil_or_concat more with rfl | ⟨others, d, rfl⟩
    · rw [List.append_nil] at longer
      exact ⟨front, sigFront ++ ['('], [], by simpa using longer.symm, boundary, isSignature⟩
    · have last : d = '(' := by
        have ends := congrArg List.getLast? longer
        simpa using ends.symm
      exact absurd (by rw [rest, last]; simp) noParenthesis
  · exact ⟨front, sigFront ++ ['('], more, by rw [shorter, List.append_assoc], boundary, isSignature⟩

/-- A signature does not start in a text without the first letter of `void`. -/
theorem Signs.of_append_left {before line : Text} (signs : procedure.Signs (before ++ line))
    (noLetter : 'v' ∉ before) : procedure.Signs line := by
  obtain ⟨front, signature, back, split_, boundary, isSignature⟩ := signs
  obtain ⟨rest, rfl, -⟩ := isSignature.eq_cons
  rcases append_cons_cases split_ with ⟨more, rfl, tail⟩ | ⟨more, longer, -⟩
  · refine ⟨more, 'v' :: rest, back, tail, ?_, isSignature⟩
    intro c last
    obtain ⟨others, rfl⟩ := List.getLast?_eq_some_iff.1 last
    exact boundary c (by simp)
  · exact absurd (by rw [longer]; simp) noLetter

end Procedure

namespace Text

theorem startsWith_iff {beginning s : Text} :
    startsWith beginning s = true ↔ ∃ rest, s = beginning ++ rest := by
  rw [startsWith, Option.isSome_iff_exists]
  exact exists_congr fun rest => after?_eq_some_iff

/-- A beginning that fits into a text is looked for in that text only. -/
theorem startsWith_append {beginning s : Text} (fits : beginning.length ≤ s.length) (t : Text) :
    startsWith beginning (s ++ t) = startsWith beginning s := by
  rw [Bool.eq_iff_iff, startsWith_iff, startsWith_iff]
  constructor
  · rintro ⟨rest, split⟩
    rcases List.append_eq_append_iff.1 split with ⟨more, longer, -⟩ | ⟨more, whole, -⟩
    · have empty : more = [] := by
        have lengths := congrArg List.length longer
        rw [List.length_append] at lengths
        exact List.eq_nil_of_length_eq_zero (by omega)
      exact ⟨[], by rw [longer, empty]; simp⟩
    · exact ⟨more, whole⟩
  · rintro ⟨rest, rfl⟩
    exact ⟨rest ++ t, List.append_assoc _ _ _⟩

end Text

namespace Code

/-- Whether a line starts like the line of a comment. -/
def isCommented (line : Text) : Bool :=
  Text.startsWith ['/', '/'] (Text.trimStart line) || Text.startsWith ['*'] (Text.trimStart line)

variable {procedure : Procedure}

theorem declares_iff {carry : Carry} {line : Text} :
    declares procedure (carry, line) = true ↔
      carry = .code ∧ procedure.Signs line ∧ isCommented line = false := by
  simp only [declares, isCommented, Bool.and_eq_true, decide_eq_true_eq, Bool.not_eq_true',
    Bool.or_eq_false_iff, Procedure.isDeclaredIn_iff, and_assoc]

theorem trimStart_of_signs {line : Text} (signs : procedure.Signs line) (after : Text) :
    Text.trimStart (line ++ after) = Text.trimStart line ++ after ∧
      2 ≤ (Text.trimStart line).length := by
  obtain ⟨before, signature, back, rfl, -, isSignature⟩ := signs
  obtain ⟨rest, rfl, long⟩ := isSignature.eq_cons
  have visible : (('v' :: rest) ++ back).dropWhile Text.isBlank = 'v' :: (rest ++ back) :=
    List.dropWhile_cons_of_neg (by decide)
  have trimmed : Text.trimStart (before ++ (('v' :: rest) ++ back)) =
      before.dropWhile Text.isBlank ++ 'v' :: (rest ++ back) := by
    rw [Text.trimStart, List.dropWhile_append, visible]
    split
    case isTrue empty => rw [List.isEmpty_iff.1 empty, List.nil_append]
    case isFalse => rfl
  constructor
  · rw [Text.trimStart, List.dropWhile_append, ← Text.trimStart, trimmed]
    exact if_neg (by simp)
  · rw [trimmed]
    simp only [List.length_append, List.length_cons]
    omega

theorem declares_append {carry : Carry} {line : Text} (signs : procedure.Signs line)
    (after : Text) :
    declares procedure (carry, line ++ after) = declares procedure (carry, line) := by
  obtain ⟨trimmed, long⟩ := trimStart_of_signs signs after
  have commented : isCommented (line ++ after) = isCommented line := by
    rw [isCommented, isCommented, trimmed, Text.startsWith_append (by simpa using long),
      Text.startsWith_append (by simp only [List.length_singleton]; omega)]
  rw [Bool.eq_iff_iff, declares_iff, declares_iff, commented]
  simp only [signs, signs.append_right after]

/-- Text without a parenthesis at the end of a line has no part in it either. -/
theorem declares_append_of_not_mem {carry : Carry} {line after : Text}
    (noParenthesis : '(' ∉ after) :
    declares procedure (carry, line ++ after) = declares procedure (carry, line) := by
  by_cases signs : procedure.Signs line
  · exact declares_append signs after
  · have wholeNot : ¬ procedure.Signs (line ++ after) :=
      fun whole => signs (whole.of_append_right noParenthesis)
    rw [Bool.eq_iff_iff, declares_iff, declares_iff]
    simp only [signs, wholeNot, false_and, and_false]

theorem not_mem_of_allBlank {c : Char} {blanks : Text} (allBlank : Text.AllBlank blanks)
    (visible : Text.isBlank c = false) : c ∉ blanks := by
  intro member
  rw [allBlank c member] at visible
  cases visible

theorem declares_trimEnd (carry : Carry) (line : Text) :
    declares procedure (carry, Text.trimEnd line) = declares procedure (carry, line) := by
  obtain ⟨blanks, split, allBlank⟩ := Text.trimEnd_append_blanks line
  generalize Text.trimEnd line = short at split
  subst split
  exact (declares_append_of_not_mem (not_mem_of_allBlank allBlank (by decide))).symm

end Code

end MigrationSquash
