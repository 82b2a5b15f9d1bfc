import MigrationSquash.Proofs.Scan.Layout

/-!
# Closed lines

What a scan of line after line says about braces that match: the depth never falls below zero, it
is zero at the end, and nothing is left open there.  Main statement: lines are closed in this sense
exactly if the braces that the walk over them finds are balanced and the walk ends in code, so a
text is closed exactly if its lines are.
-/

set_option autoImplicit false

namespace MigrationSquash.Code

/-- No beginning of the braces leads below depth zero. -/
def NeverBelow (depth : Int) (kinds : List BraceKind) : Prop :=
  ∀ front, front <+: kinds → 0 ≤ depth + BraceKind.balance front

theorem neverBelow_nil_iff {depth : Int} : NeverBelow depth [] ↔ 0 ≤ depth := by
  simp [NeverBelow, BraceKind.balance]

theorem neverBelow_cons_iff {depth : Int} {kind : BraceKind} {rest : List BraceKind} :
    NeverBelow depth (kind :: rest) ↔ 0 ≤ depth ∧ NeverBelow (depth + kind.delta) rest := by
  constructor
  · intro never
    refine ⟨by simpa [BraceKind.balance] using never [] (List.nil_prefix), ?_⟩
    intro front isPrefix
    have longer := never (kind :: front) (List.cons_prefix_cons.2 ⟨rfl, isPrefix⟩)
    rw [BraceKind.balance] at longer
    omega
  · rintro ⟨start, never⟩ front isPrefix
    rcases List.prefix_cons_iff.1 isPrefix with rfl | ⟨others, rfl, later⟩
    · simpa [BraceKind.balance] using start
    · have shorter := never others later
      rw [BraceKind.balance]
      omega

/-- Braces lead somewhere exactly if they never lead below depth zero. -/
theorem isSome_depthAfter?_iff {depth : Nat} {kinds : List BraceKind} :
    (depthAfter? depth kinds).isSome = true ↔ NeverBelow depth kinds := by
  induction kinds generalizing depth with
  | nil => simp [depthAfter?, neverBelow_nil_iff]
  | cons kind rest ih =>
      rw [neverBelow_cons_iff]
      cases kind with
      | opening =>
          have deeper : ((depth : Int) + BraceKind.opening.delta) = ((depth + 1 : Nat) : Int) := rfl
          rw [depthAfter?, ih, deeper]
          exact (and_iff_right (by omega)).symm
      | closing =>
          cases depth with
          | zero =>
              have below : ¬ NeverBelow (((0 : Nat) : Int) + BraceKind.closing.delta) rest :=
                fun never => absurd (never [] List.nil_prefix) (by decide)
              exact iff_of_false (by simp [depthAfter?]) fun both => below both.2
          | succ depth =>
              have higher : (((depth + 1 : Nat) : Int) + BraceKind.closing.delta) = (depth : Int) := by
                have one : BraceKind.closing.delta = -1 := rfl
                omega
              rw [depthAfter?, ih, higher]
              exact (and_iff_right (by omega)).symm

theorem balanced_iff {kinds : List BraceKind} :
    Balanced kinds ↔ NeverBelow 0 kinds ∧ BraceKind.balance kinds = 0 := by
  have somewhere : (depthAfter? 0 kinds).isSome = true ↔ NeverBelow 0 kinds :=
    isSome_depthAfter?_iff
  constructor
  · intro balanced
    refine ⟨somewhere.1 ?_, balanced.balance⟩
    rw [balanced]
    rfl
  · rintro ⟨never, level⟩
    obtain ⟨reached, run⟩ := Option.isSome_iff_exists.1 (somewhere.2 never)
    have total := balance_of_depthAfter? run
    obtain rfl : reached = 0 := by omega
    exact run

/-- A block is never closed exactly if the braces behind its opening one never lead below its
depth. -/
theorem closes_eq_false_iff {depth : Nat} {kinds : List BraceKind} :
    closes depth kinds = false ↔ NeverBelow depth kinds := by
  rw [← isSome_depthAfter?_iff]
  induction kinds generalizing depth with
  | nil => simp [closes, depthAfter?]
  | cons kind rest ih =>
      cases kind with
      | opening => exact ih
      | closing =>
          cases depth with
          | zero => simp [closes, depthAfter?]
          | succ depth => exact ih

/-- There is no first block exactly if nothing opens one or what the first one holds never leads
below its depth. -/
theorem firstBlock?_eq_none_iff {braces : List (Spot × BraceKind)} :
    firstBlock? braces = none ↔
      (∀ kind ∈ braces.map (·.2), kind = .closing) ∨
        ∃ skipped opening behind, braces = skipped ++ (opening, .opening) :: behind ∧
          (∀ kind ∈ skipped.map (·.2), kind = .closing) ∧ NeverBelow 0 (behind.map (·.2)) := by
  induction braces with
  | nil => simp [firstBlock?]
  | cons brace rest ih =>
      obtain ⟨here, kind⟩ := brace
      cases kind with
      | opening =>
          have never : closing? 0 rest = none ↔ NeverBelow 0 (rest.map (·.2)) := by
            rw [← Option.not_isSome_iff_eq_none, isSome_closing?, Bool.not_eq_true]
            exact closes_eq_false_iff
          rw [firstBlock?, Option.map_eq_none_iff, never]
          constructor
          · intro unclosed
            exact Or.inr ⟨[], here, rest, rfl, by simp, unclosed⟩
          · rintro (allClosing | ⟨skipped, opening, behind, split, allClosing, unclosed⟩)
            · cases allClosing .opening (by simp)
            · cases skipped with
              | nil =>
                  obtain ⟨-, rfl⟩ := List.cons.inj split
                  exact unclosed
              | cons first skipped =>
                  obtain ⟨rfl, -⟩ := List.cons.inj split
                  cases allClosing .opening (by simp)
      | closing =>
          rw [firstBlock?, ih]
          constructor
          · rintro (allClosing | ⟨skipped, opening, behind, rfl, allClosing, unclosed⟩)
            · exact Or.inl (by simpa using allClosing)
            · exact Or.inr ⟨(here, .closing) :: skipped, opening, behind, rfl,
                by simpa using allClosing, unclosed⟩
          · rintro (allClosing | ⟨skipped, opening, behind, split, allClosing, unclosed⟩)
            · exact Or.inl (by simpa using allClosing)
            · cases skipped with
              | nil => simp at split
              | cons first skipped =>
                  obtain ⟨rfl, rfl⟩ := List.cons.inj split
                  exact Or.inr ⟨skipped, opening, behind, rfl,
                    fun kind member => allClosing kind (List.mem_cons_of_mem _ member), unclosed⟩

/-- Lines whose braces match and behind which nothing is open, as a scan of line after line finds
that starts in code. -/
structure ClosedLines (lines : List Text) : Prop where
  never : NeverBelow 0
    ((scanLines .code lines).flatMap fun scan => scan.braces.map (·.kind))
  level : totalDelta lines = 0
  ends : ∀ scan ∈ (scanLines .code lines).getLast?, scan.carry = .code

theorem closedLines_iff {lines : List Text} :
    ClosedLines lines ↔
      Balanced (Mode.code.kindsOfLines lines) ∧ (Mode.code.runLines lines).carry = .code := by
  have ends : (∀ scan ∈ (scanLines .code lines).getLast?, scan.carry = .code) ↔
      (Mode.code.runLines lines).carry = .code := by
    by_cases empty : lines = []
    · subst empty
      exact ⟨fun _ => rfl, fun _ scan last => by cases last⟩
    · have last := carry_getLast?_scanLines .code empty
      change _ = some (Mode.code.runLines lines).carry at last
      obtain ⟨scan, isLast, carries⟩ := Option.map_eq_some_iff.1 last
      rw [← carries]
      simp [isLast]
  constructor
  · rintro ⟨never, level, last⟩
    rw [kinds_scanLines] at never
    rw [totalDelta_eq] at level
    exact ⟨balanced_iff.2 ⟨never, level⟩, ends.1 last⟩
  · rintro ⟨balanced, last⟩
    obtain ⟨never, level⟩ := balanced_iff.1 balanced
    refine ⟨?_, ?_, ends.2 last⟩
    · rw [kinds_scanLines]
      exact never
    · rw [totalDelta_eq]
      exact level

instance (kinds : List BraceKind) : Decidable (Balanced kinds) :=
  inferInstanceAs (Decidable (depthAfter? 0 kinds = some 0))

instance (lines : List Text) : Decidable (ClosedLines lines) :=
  decidable_of_iff' _ closedLines_iff

theorem closed_iff {s : Text} : Closed s ↔ ClosedLines (Text.lines s) := by
  obtain ⟨kinds, carries⟩ := Mode.code.kindsOfLines_lines s
  rw [closedLines_iff, kinds, carries]
  exact ⟨fun closed => ⟨closed.balanced, closed.ends⟩, fun ⟨balanced, ends⟩ => ⟨balanced, ends⟩⟩

end MigrationSquash.Code
