import MigrationSquash.Proofs.Region.Frame

/-!
# Declarations in code

The search for the declaration judges a line by what is open where it starts and by its first
characters, not by where on the line the signature stands.  Main statement: the line it finds starts
in code, and no line above it starts in code, not with a star, and holds a signature that is code;
it is the first such line exactly if none that is read before holds signatures only in comments or
literals.
-/

set_option autoImplicit false

namespace MigrationSquash

namespace Code

/-- The place behind the beginning of a line is code: a brace that opens a block there would
count. -/
def IsCodeBehind (carry : Carry) (front : Text) : Prop :=
  (scanLine (front ++ ['{']) carry).delta = (scanLine front carry).delta + 1

theorem delta_scanLine (line : Text) (carry : Carry) :
    (scanLine line carry).delta = BraceKind.balance (carry.mode.kinds line) := by
  rw [scanLine_eq_scan, ← Mode.map_kind_braces carry.mode 0 line]
  rfl

theorem isCodeBehind_iff {carry : Carry} {front : Text} :
    IsCodeBehind carry front ↔ (carry.mode.run front).isCode = true := by
  have added : carry.mode.kinds (front ++ ['{']) =
      carry.mode.kinds front ++ ((carry.mode.run front).braceAt? '{').toList := by
    rw [Mode.kinds_append, Mode.kinds, Mode.kinds_nil, List.append_nil]
  rw [IsCodeBehind, delta_scanLine, delta_scanLine, added]
  exact BraceKind.balance_append_opening_iff

/-- A signature stands in the line and starts a word there, and all of it is code. -/
def SignsInCode (procedure : Procedure) : Carry × Text → Prop
  | (carry, line) =>
      ∃ before signature after, line = before ++ (signature ++ after) ∧
        Procedure.EndsWord before ∧ procedure.IsSignature signature ∧
        ∀ front back, signature = front ++ back → back ≠ [] → IsCodeBehind carry (before ++ front)

/-- The line starts in code, not with a star, and a signature stands in its code. -/
structure DeclaresInCode (procedure : Procedure) (pair : Carry × Text) : Prop where
  starts : pair.1 = .code
  starless : Text.startsWith ['*'] (Text.trimStart pair.2) = false
  signs : SignsInCode procedure pair

variable {procedure : Procedure}

/-- Whether a character opens no comment and no literal. -/
def Mode.isPlain (c : Char) : Bool := c != '/' && c != '*' && c != '"' && c != '\''

theorem Mode.isCode_step {mode : Mode} (inCode : mode.isCode = true) {c : Char}
    (plain : Mode.isPlain c = true) : (mode.step c).isCode = true := by
  simp only [isPlain, Bool.and_eq_true, bne_iff_ne] at plain
  obtain ⟨⟨⟨noSlash, noStar⟩, noQuote⟩, noApostrophe⟩ := plain
  have start : (ofCode c).isCode = true := by
    simp only [ofCode, noSlash, noQuote, noApostrophe, if_false]
    split <;> rfl
  cases mode with
  | code => exact start
  | afterSlash => simpa [step, noSlash, noStar] using start
  | afterAt =>
      rw [step, if_neg noQuote]
      split
      · rfl
      · exact start
  | afterAtDollar => simpa [step, noQuote] using start
  | afterQuote => simpa [step, noQuote] using start
  | _ => cases inCode

theorem Mode.isCode_run_plain {mode : Mode} (inCode : mode.isCode = true) {s : Text}
    (plain : s.all Mode.isPlain = true) : (mode.run s).isCode = true := by
  induction s generalizing mode with
  | nil => exact inCode
  | cons c rest ih =>
      rw [List.all_cons, Bool.and_eq_true] at plain
      exact ih (isCode_step inCode plain.1) plain.2

theorem all_isPlain_of_allBlank {blanks : Text} (allBlank : Text.AllBlank blanks) :
    blanks.all Mode.isPlain = true := by
  rw [List.all_eq_true]
  intro c member
  have blank := allBlank c member
  simp only [Mode.isPlain, Bool.and_eq_true, bne_iff_ne]
  refine ⟨⟨⟨?_, ?_⟩, ?_⟩, ?_⟩ <;> rintro rfl <;> revert blank <;> decide

theorem all_isPlain_signature {signature : Text} (signs : procedure.IsSignature signature) :
    signature.all Mode.isPlain = true := by
  obtain ⟨gap, space, -, gapBlank, spaceBlank, rfl⟩ := signs
  have word : "void".toList.all Mode.isPlain = true := by decide
  have name : procedure.name.all Mode.isPlain = true := by cases procedure <;> decide
  rw [List.all_append, List.all_append, List.all_append, List.all_append, word, name,
    all_isPlain_of_allBlank gapBlank, all_isPlain_of_allBlank spaceBlank]
  rfl

/-- A signature that starts in code is code. -/
theorem signsInCode_iff {carry : Carry} {line : Text} :
    SignsInCode procedure (carry, line) ↔
      ∃ before signature after, line = before ++ (signature ++ after) ∧
        Procedure.EndsWord before ∧ procedure.IsSignature signature ∧
        (carry.mode.run before).isCode = true := by
  refine exists_congr fun before => exists_congr fun signature => exists_congr fun after =>
    and_congr_right fun _ => and_congr_right fun _ => and_congr_right fun signs => ?_
  constructor
  · intro code
    obtain ⟨rest, rfl, -⟩ := signs.eq_cons
    have first := code [] ('v' :: rest) rfl (List.cons_ne_nil _ _)
    rwa [List.append_nil, isCodeBehind_iff] at first
  · rintro code front back rfl -
    rw [isCodeBehind_iff, Mode.run_append]
    have plain := all_isPlain_signature signs
    rw [List.all_append, Bool.and_eq_true] at plain
    exact Mode.isCode_run_plain code plain.1

/-- Whether a signature stands in the code of a text that is read in a mode, after the character
`left`. -/
def signsFrom (procedure : Procedure) : Mode → Option Char → Text → Bool
  | _, _, [] => false
  | mode, left, c :: rest =>
      mode.isCode && Text.isWordBoundary left (some c) &&
          (procedure.afterSignature? (c :: rest)).isSome ||
        signsFrom procedure (mode.step c) (some c) rest

theorem signsFrom_iff {mode : Mode} {left : Option Char} {s : Text} :
    signsFrom procedure mode left s = true ↔
      ∃ before signature after, s = before ++ (signature ++ after) ∧
        (∀ c, before.getLast?.or left = some c → Text.isWord c = false) ∧
        procedure.IsSignature signature ∧ (mode.run before).isCode = true := by
  induction s generalizing mode left with
  | nil =>
      refine iff_of_false Bool.false_ne_true ?_
      rintro ⟨before, signature, after, split, -, signs, -⟩
      obtain ⟨rest, rfl, -⟩ := signs.eq_cons
      cases before <;> cases split
  | cons c rest ih =>
      rw [signsFrom, Bool.or_eq_true, ih, Bool.and_eq_true, Bool.and_eq_true]
      constructor
      · rintro (⟨⟨code, boundary⟩, here⟩ | ⟨before, signature, after, rfl, boundary, signs, code⟩)
        · obtain ⟨after, found⟩ := Option.isSome_iff_exists.1 here
          obtain ⟨signature, signs, split⟩ := Procedure.afterSignature?_eq_some_iff.1 found
          refine ⟨[], signature, after, split, ?_, signs, code⟩
          obtain ⟨others, rfl, -⟩ := signs.eq_cons
          obtain ⟨rfl, -⟩ := List.cons.inj split
          simpa using Procedure.isWordBoundary_some_iff.1 boundary
        · refine ⟨c :: before, signature, after, rfl, ?_, signs, code⟩
          rwa [Procedure.getLast?_cons_or]
      · rintro ⟨before, signature, after, split, boundary, signs, code⟩
        cases before with
        | nil =>
            obtain ⟨others, rfl, -⟩ := signs.eq_cons
            have found := Procedure.afterSignature?_eq_some_iff.2 ⟨_, signs, split⟩
            obtain ⟨rfl, -⟩ := List.cons.inj split
            refine Or.inl ⟨⟨code, ?_⟩, by rw [found]; rfl⟩
            exact Procedure.isWordBoundary_some_iff.2 (by simpa using boundary)
        | cons d before =>
            obtain ⟨rfl, rfl⟩ := List.cons.inj split
            rw [Procedure.getLast?_cons_or] at boundary
            exact Or.inr ⟨before, signature, after, rfl, boundary, signs, code⟩

instance (pair : Carry × Text) : Decidable (SignsInCode procedure pair) :=
  decidable_of_iff (signsFrom procedure pair.1.mode none pair.2 = true) <| by
    rw [signsFrom_iff]
    refine Iff.trans ?_ signsInCode_iff.symm
    simp only [Option.or_none, Procedure.EndsWord]

instance (pair : Carry × Text) : Decidable (DeclaresInCode procedure pair) :=
  decidable_of_iff (pair.1 = .code ∧ Text.startsWith ['*'] (Text.trimStart pair.2) = false ∧
      SignsInCode procedure pair)
    ⟨fun ⟨starts, starless, signs⟩ => ⟨starts, starless, signs⟩,
      fun declares => ⟨declares.starts, declares.starless, declares.signs⟩⟩

theorem Mode.run_lineComment (s : Text) : Mode.lineComment.run s = .lineComment := by
  induction s with
  | nil => rfl
  | cons c rest ih => exact ih

/-- Nothing on a line is code that starts as a line comment. -/
theorem not_signsInCode_of_lineComment {line : Text}
    (comment : Text.startsWith ['/', '/'] (Text.trimStart line) = true) :
    ¬ SignsInCode procedure (.code, line) := by
  rw [signsInCode_iff]
  rintro ⟨before, signature, after, split, -, signs, code⟩
  obtain ⟨rest, comment⟩ := Text.startsWith_iff.1 comment
  obtain ⟨blanks, whole, allBlank⟩ := Text.blanks_append_trimStart line
  obtain ⟨others, rfl, -⟩ := signs.eq_cons
  rw [comment, split] at whole
  rcases List.append_eq_append_iff.1 whole with ⟨more, inBlanks, tail⟩ | ⟨more, rfl, tail⟩
  · -- the signature starts in the blanks or with the comment
    cases more with
    | nil => cases tail
    | cons c more =>
        obtain ⟨rfl, -⟩ := List.cons.inj tail
        have visible : Text.isBlank 'v' = false := by decide
        exact not_mem_of_allBlank allBlank visible (by rw [inBlanks]; simp)
  · cases more with
    | nil => cases tail
    | cons c more =>
        cases more with
        | nil => cases tail
        | cons d more =>
            -- the comment starts before the signature
            obtain ⟨rfl, second⟩ := List.cons.inj tail
            obtain ⟨rfl, -⟩ := List.cons.inj second
            rw [Mode.run_append, Mode.run_mode_blanks allBlank .code] at code
            change (Mode.lineComment.run more).isCode = true at code
            rw [Mode.run_lineComment] at code
            cases code

/-- A line that declares the procedure in code is one that is looked for. -/
theorem DeclaresInCode.declares {pair : Carry × Text} (inCode : DeclaresInCode procedure pair) :
    Code.declares procedure pair = true := by
  obtain ⟨carry, line⟩ := pair
  obtain ⟨rfl, starless, signs⟩ := inCode
  have written : procedure.Signs line := by
    obtain ⟨before, signature, after, split, boundary, isSignature, -⟩ := signs
    exact ⟨before, signature, after, split, boundary, isSignature⟩
  refine declares_iff.2 ⟨rfl, written, ?_⟩
  rw [isCommented, Bool.or_eq_false_iff]
  refine ⟨?_, starless⟩
  by_contra comment
  exact not_signsInCode_of_lineComment (by simpa using comment) signs

/-- Of two searches the one that is content with more stops at the same place exactly if it finds
there, and before, nothing that the other one leaves aside. -/
theorem findIdx?_eq_iff {α : Type} {coarse fine : α → Bool}
    (implied : ∀ a, fine a = true → coarse a = true) {l : List α} :
    l.findIdx? coarse = l.findIdx? fine ↔
      ∀ above a below, l = above ++ a :: below → (∀ b ∈ above, fine b = false) →
        coarse a = true → fine a = true := by
  induction l with
  | nil => simp
  | cons a rest ih =>
      rw [List.findIdx?_cons, List.findIdx?_cons]
      cases isFine : fine a with
      | true =>
          rw [implied a isFine]
          refine iff_of_true rfl ?_
          rintro (_ | ⟨b, above⟩) c below split none -
          · obtain ⟨rfl, -⟩ := List.cons.inj split
            exact isFine
          · obtain ⟨rfl, -⟩ := List.cons.inj split
            rw [none a List.mem_cons_self] at isFine
            cases isFine
      | false =>
          cases isCoarse : coarse a with
          | true =>
              refine iff_of_false ?_ fun all => ?_
              · cases rest.findIdx? fine <;> simp
              · have here := all [] a rest rfl (by simp) isCoarse
                rw [isFine] at here
                cases here
          | false =>
              simp only [Bool.false_eq_true, if_false]
              rw [(Option.map_injective Nat.succ_injective).eq_iff, ih]
              constructor
              · rintro all (_ | ⟨b, above⟩) c below split none found
                · obtain ⟨rfl, -⟩ := List.cons.inj split
                  rw [isCoarse] at found
                  cases found
                · obtain ⟨rfl, rfl⟩ := List.cons.inj split
                  exact all above c below rfl
                    (fun d member => none d (List.mem_cons_of_mem _ member)) found
              · intro all above c below split none found
                refine all (a :: above) c below (by rw [split]; rfl) ?_ found
                intro d member
                rcases List.mem_cons.1 member with rfl | later
                · exact isFine
                · exact none d later

/-- The number of the first line that declares the procedure in code. -/
def firstInCode? (procedure : Procedure) (lines : List Text) : Option Nat :=
  (withCarry .code lines).findIdx? fun pair => decide (DeclaresInCode procedure pair)

/-- Down to the first line that declares the procedure in code, no line is taken for one whose
signatures all stand in comments or literals. -/
def Undisguised (procedure : Procedure) (lines : List Text) : Prop :=
  ∀ above pair below, withCarry .code lines = above ++ pair :: below →
    (∀ earlier ∈ above, ¬ DeclaresInCode procedure earlier) →
    declares procedure pair = true → SignsInCode procedure pair

namespace Sample

/-- The declaration stands behind a comment that ends on its line. -/
def behindComment : List Text := [
  "class A \x7b".toList,
  "    /* as before".toList,
  "    */ void Up(M m) \x7b m.Run(); \x7d".toList,
  "\x7d".toList]

/-- A comment that names the procedure stands above the declaration. -/
def mentioned : List Text := [
  "class A \x7b".toList,
  "    /* see void Up(M m) below */".toList,
  "    void Up(M m) \x7b m.Run(); \x7d".toList,
  "\x7d".toList]

end Sample

/-- A line that starts in code is taken for its signature in a comment. -/
example : findDeclaration? .up Sample.mentioned = some 1 ∧
    firstInCode? .up Sample.mentioned = some 2 := by
  decide

end Code

end MigrationSquash
