import MigrationSquash.Code.Import.Placement
import MigrationSquash.Proofs.Region.Absent

/-!
# Imports around procedures

Import declarations that are written above the procedures leave their bodies as they are, if no
declaration holds a brace, opens something or is signed.  A procedure that the file does not hold
does not come in with them.
-/

set_option autoImplicit false

namespace MigrationSquash.Code

variable {procedure : Procedure}

/-- A line with no brace that leaves nothing open and declares no procedure. -/
structure Quiet (line : Text) : Prop where
  scan : scanLine line .code = ⟨[], .code⟩
  noUp : Procedure.isDeclaredIn .up line = false
  noDown : Procedure.isDeclaredIn .down line = false

instance (line : Text) : Decidable (Quiet line) :=
  decidable_of_iff (scanLine line .code = ⟨[], .code⟩ ∧ Procedure.isDeclaredIn .up line = false ∧
      Procedure.isDeclaredIn .down line = false)
    ⟨fun all => ⟨all.1, all.2.1, all.2.2⟩, fun quiet => ⟨quiet.scan, quiet.noUp, quiet.noDown⟩⟩

namespace Quiet

theorem not_signs {line : Text} (quiet : Quiet line) (procedure : Procedure) :
    ¬ procedure.Signs line := by
  intro signs
  have declared := Procedure.isDeclaredIn_iff.2 signs
  cases procedure with
  | up =>
      rw [quiet.noUp] at declared
      cases declared
  | down =>
      rw [quiet.noDown] at declared
      cases declared

theorem kinds {line : Text} (quiet : Quiet line) : Mode.code.kinds line = [] := by
  have braces : Mode.code.braces 0 line = [] := by
    have scanned := quiet.scan
    rw [scanLine_eq_scan] at scanned
    exact congrArg LineScan.braces scanned
  rw [← Mode.map_kind_braces .code 0, braces]
  rfl

theorem carry {line : Text} (quiet : Quiet line) : (Mode.code.run line).carry = .code := by
  have scanned := quiet.scan
  rw [scanLine_eq_scan] at scanned
  exact congrArg LineScan.carry scanned

theorem of_kinds {line : Text} (kinds : Mode.code.kinds line = [])
    (carry : (Mode.code.run line).carry = .code) (unsigned : ∀ p : Procedure, ¬ p.Signs line) :
    Quiet line := by
  have silent (p : Procedure) : p.isDeclaredIn line = false := by
    cases declared : p.isDeclaredIn line with
    | false => rfl
    | true => exact absurd (Procedure.isDeclaredIn_iff.1 declared) (unsigned p)
  refine ⟨?_, silent .up, silent .down⟩
  have braces : Mode.code.braces 0 line = [] := by
    apply List.map_eq_nil_iff.1
    rw [Mode.map_kind_braces, kinds]
  rw [scanLine_eq_scan]
  exact congrArg₂ LineScan.mk braces carry

theorem of_isBlankText {line : Text} (blank : Text.isBlankText line = true) : Quiet line := by
  have allBlank := Text.allBlank_iff.2 blank
  refine of_kinds (Mode.kinds_blanks allBlank .code) ?_ ?_
  · rw [Mode.carry_run_blanks allBlank]
    rfl
  · intro p signs
    rw [Frame.isBlankText_of_signs signs] at blank
    cases blank

theorem blanks_append {blanks line : Text} (allBlank : Text.AllBlank blanks) (quiet : Quiet line) :
    Quiet (blanks ++ line) := by
  obtain ⟨kinds, mode⟩ := Mode.kinds_mode_blanks allBlank .code line
  refine of_kinds (kinds.trans quiet.kinds) ((congrArg Mode.carry mode).trans quiet.carry) ?_
  intro p signs
  exact quiet.not_signs p (signs.of_append_left (not_mem_of_allBlank allBlank (by decide)))

theorem lines {lines : List Text} (quiet : ∀ line ∈ lines, Quiet line) :
    Mode.code.kindsOfLines lines = [] ∧ Mode.code.runLines lines = .code := by
  induction lines with
  | nil => exact ⟨rfl, rfl⟩
  | cons line rest ih =>
      have first := quiet line List.mem_cons_self
      obtain ⟨kinds, mode⟩ := ih fun other member => quiet other (List.mem_cons_of_mem _ member)
      rw [Mode.kindsOfLines_cons, Mode.runLines_cons, first.kinds, first.carry]
      exact ⟨kinds, mode⟩

end Quiet

namespace ImportSet

theorem mem_insert {imports : ImportSet} {declaration s : Text} :
    s ∈ (imports.insert declaration).items ↔ s = Text.trim declaration ∨ s ∈ imports.items :=
  mem_insertOrdered

theorem mem_ofList {declarations : List Text} {s : Text} :
    s ∈ (ofList declarations).items ↔ ∃ declaration ∈ declarations, s = Text.trim declaration := by
  have general (imports : ImportSet) :
      s ∈ (declarations.foldl insert imports).items ↔
        (∃ declaration ∈ declarations, s = Text.trim declaration) ∨ s ∈ imports.items := by
    induction declarations generalizing imports with
    | nil => simp
    | cons first rest ih =>
        rw [List.foldl_cons, ih, mem_insert, List.exists_mem_cons_iff, ← or_assoc,
          or_comm (a := ∃ _, _)]
  have nothing : s ∉ empty.items := List.not_mem_nil
  rw [ofList, general, or_iff_left nothing]

theorem mem_ofLines {lines : List Text} {s : Text} :
    s ∈ (ofLines lines).items ↔ ∃ line ∈ lines, isImport line = true ∧ s = Text.trim line := by
  rw [ofLines, mem_ofList]
  simp only [List.mem_filter, and_assoc]

theorem nodup_items (imports : ImportSet) : imports.items.Nodup := by
  refine imports.ordered.imp fun {first second} before same => ?_
  subst same
  exact List.lt_irrefl first before

/-- Sets with the same declarations are the same, since each has them in order. -/
theorem ext_of_mem {left right : ImportSet} (same : ∀ s, s ∈ left.items ↔ s ∈ right.items) :
    left = right := by
  have permuted : left.items.Perm right.items :=
    (List.perm_ext_iff_of_nodup left.nodup_items right.nodup_items).2 same
  have items : left.items = right.items :=
    permuted.eq_of_pairwise (fun _ _ _ _ before behind => absurd behind (List.lt_asymm before))
      left.ordered right.ordered
  cases left
  cases right
  cases items
  rfl

theorem mem_union {left right : ImportSet} {s : Text} :
    s ∈ (left.union right).items ↔ s ∈ left.items ∨ s ∈ right.items := by
  have general (added items : List Text) :
      s ∈ added.foldl (fun items s => insertOrdered s items) items ↔ s ∈ items ∨ s ∈ added := by
    induction added generalizing items with
    | nil => simp
    | cons first rest ih =>
        rw [List.foldl_cons, ih, mem_insertOrdered, List.mem_cons, or_assoc, or_left_comm]
  exact general right.items left.items

theorem mem_foldl_union {sets : List ImportSet} {start : ImportSet} {s : Text} :
    s ∈ (sets.foldl union start).items ↔ s ∈ start.items ∨ ∃ set ∈ sets, s ∈ set.items := by
  induction sets generalizing start with
  | nil => simp
  | cons first rest ih =>
      rw [List.foldl_cons, ih, mem_union, List.exists_mem_cons_iff, or_assoc]

end ImportSet

/-- The imports stand in code and above the procedures, and neither they nor those they replace
hold more than imports do. -/
structure Placed (lines : List Text) (imports : ImportSet) : Prop where
  starts : (Mode.code.runLines (lines.take (placement lines).line)).carry = .code
  above : ∀ (procedure : Procedure) (bounds : Bounds), locate? procedure lines = some bounds →
    (placement lines).line ≤ bounds.declaration
  replaced : ∀ line ∈ lines, isImport line = true → Quiet line
  written : ∀ item ∈ imports.items, Quiet item

theorem allBlank_placement_indent (lines : List Text) :
    Text.AllBlank (placement lines).indent := by
  have own := Text.allBlank_indentation
  have deeper (line : Text) := (own line).append Text.allBlank_indentStep
  unfold placement
  split
  · intro c member
    cases member
  · dsimp only
    split
    · exact own _
    · exact deeper _
    · exact deeper _

/-- The imports give way to others, and the lines around them stay. -/
theorem exists_placeImports_eq (lines : List Text) (imports : ImportSet) :
    ∃ old new rest, lines = lines.take (placement lines).line ++ (old ++ rest) ∧
      placeImports lines imports = lines.take (placement lines).line ++ (new ++ rest) ∧
      (∀ line ∈ old, isReplaced line = true) ∧
      (∀ line ∈ new, line = [] ∨
        ∃ item ∈ imports.items, line = (placement lines).indent ++ item) ∧
      (new = [] → old = []) := by
  unfold placeImports
  split
  case isTrue =>
    exact ⟨[], [], lines.drop (placement lines).line, (List.take_append_drop _ _).symm,
      (List.take_append_drop _ _).symm, by simp, by simp, fun _ => rfl⟩
  case isFalse written =>
    refine ⟨(lines.drop (placement lines).line).takeWhile isReplaced,
      (if (placement lines).blankBefore then [[]] else []) ++
        imports.items.map ((placement lines).indent ++ ·) ++
          (if ((lines.drop (placement lines).line).dropWhile isReplaced).isEmpty then []
            else [[]]),
      (lines.drop (placement lines).line).dropWhile isReplaced, ?_, ?_, ?_, ?_, ?_⟩
    · rw [List.takeWhile_append_dropWhile, List.take_append_drop]
    · simp only [List.append_assoc]
    · exact fun line member => List.mem_takeWhile_imp member
    · intro line member
      simp only [List.mem_append, List.mem_map] at member
      rcases member with (blank | ⟨item, inside, rfl⟩) | blank
      · left
        split at blank
        · exact List.mem_singleton.1 blank
        · cases blank
      · exact Or.inr ⟨item, inside, rfl⟩
      · left
        split at blank
        · cases blank
        · exact List.mem_singleton.1 blank
    · intro empty
      have none : imports.items = [] := by
        simp only [List.append_eq_nil_iff, List.map_eq_nil_iff] at empty
        exact empty.1.2
      exact absurd (List.isEmpty_iff.2 none) written

/-- Imports above the procedures leave their bodies as they are. -/
theorem Placed.extract_placeImports {lines : List Text} {imports : ImportSet}
    (placed : Placed lines imports) (procedure : Procedure) :
    (extract procedure (placeImports lines imports)).text = (extract procedure lines).text := by
  obtain ⟨old, new, rest, whole, changed, replaced, written, -⟩ :=
    exists_placeImports_eq lines imports
  have starts := Mode.runLines_eq_code placed.starts
  have oldQuiet : ∀ line ∈ old, Quiet line := by
    intro line member
    have inLines : line ∈ lines := by
      rw [whole]
      exact List.mem_append_right _ (List.mem_append_left _ member)
    rcases Bool.or_eq_true_iff.1 (replaced line member) with blank | directive
    · exact .of_isBlankText blank
    · exact placed.replaced line inLines directive
  have newQuiet : ∀ line ∈ new, Quiet line := by
    intro line member
    rcases written line member with rfl | ⟨item, inside, rfl⟩
    · exact .of_isBlankText rfl
    · exact (placed.written item inside).blanks_append (allBlank_placement_indent lines)
  obtain ⟨oldKinds, oldMode⟩ := Quiet.lines oldQuiet
  obtain ⟨newKinds, newMode⟩ := Quiet.lines newQuiet
  have oldSilent : ∀ line ∈ old, declares procedure (.code, line) = false := fun line member =>
    declares_of_not_signs ((oldQuiet line member).not_signs procedure) .code
  have newSilent : ∀ line ∈ new, declares procedure (.code, line) = false := fun line member =>
    declares_of_not_signs ((newQuiet line member).not_signs procedure) .code
  have sameMode := newMode.trans oldMode.symm
  cases located : locate? procedure lines with
  | some bounds =>
      have below := placed.above procedure bounds located
      rw [whole] at located
      have short : (lines.take (placement lines).line).length ≤ bounds.declaration :=
        Nat.le_trans (List.length_take_le _ _) below
      have kept := extract_swap starts sameMode oldSilent newSilent located short
      rw [← whole] at kept
      rw [changed, kept]
  | none =>
      have absent := located
      rw [whole] at absent
      have stillAbsent := locate?_swap_eq_none starts sameMode oldSilent newSilent
        (fun _ _ => by rw [oldKinds, newKinds]) absent
      rw [changed, extract, extract, extract?, extract?, located, stillAbsent]
      rfl

end MigrationSquash.Code
