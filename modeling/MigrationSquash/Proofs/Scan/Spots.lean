import MigrationSquash.Code.Region
import MigrationSquash.Proofs.Scan.Mode

/-!
# Where structural braces stand

The walk over a line continues over the lines after it.  Main statement: a structural brace
in a list of places cuts the lines in two, and the places before and after it in the list
are those of the two halves.
-/

set_option autoImplicit false

namespace MigrationSquash.Code

namespace Mode

/-- The mode at the start of the line after the given ones. -/
def runLines : Mode → List Text → Mode
  | mode, [] => mode
  | mode, line :: rest => (mode.run line).carry.mode.runLines rest

/-- The kinds of the structural braces of the lines. -/
def kindsOfLines : Mode → List Text → List BraceKind
  | _, [] => []
  | mode, line :: rest => mode.kinds line ++ (mode.run line).carry.mode.kindsOfLines rest

@[simp] theorem runLines_nil (mode : Mode) : mode.runLines [] = mode := rfl

@[simp] theorem runLines_cons (mode : Mode) (line : Text) (rest : List Text) :
    mode.runLines (line :: rest) = (mode.run line).carry.mode.runLines rest := rfl

@[simp] theorem runLines_append (mode : Mode) (left right : List Text) :
    mode.runLines (left ++ right) = (mode.runLines left).runLines right := by
  induction left generalizing mode with
  | nil => rfl
  | cons line rest ih => simp [ih]

@[simp] theorem kindsOfLines_nil (mode : Mode) : mode.kindsOfLines [] = [] := rfl

@[simp] theorem kindsOfLines_cons (mode : Mode) (line : Text) (rest : List Text) :
    mode.kindsOfLines (line :: rest) =
      mode.kinds line ++ (mode.run line).carry.mode.kindsOfLines rest := rfl

theorem kindsOfLines_append (mode : Mode) (left right : List Text) :
    mode.kindsOfLines (left ++ right) =
      mode.kindsOfLines left ++ (mode.runLines left).kindsOfLines right := by
  induction left generalizing mode with
  | nil => rfl
  | cons line rest ih => simp [ih]

/-- Between lines the mode is what a line has left open. -/
theorem exists_runLines_mode (carry : Carry) (lines : List Text) :
    ∃ last : Carry, carry.mode.runLines lines = last.mode := by
  induction lines generalizing carry with
  | nil => exact ⟨carry, rfl⟩
  | cons line rest ih => exact ih (carry.mode.run line).carry

@[simp] theorem mode_carry_runLines (carry : Carry) (lines : List Text) :
    (carry.mode.runLines lines).carry.mode = carry.mode.runLines lines := by
  obtain ⟨last, reached⟩ := exists_runLines_mode carry lines
  rw [reached, Carry.carry_mode]

theorem runLines_eq_code {lines : List Text} (ends : (Mode.code.runLines lines).carry = .code) :
    Mode.code.runLines lines = .code := by
  have between : (Mode.code.runLines lines).carry.mode = Mode.code.runLines lines :=
    mode_carry_runLines .code lines
  rw [← between, ends]
  rfl

/-- After a structural brace comes code. -/
theorem step_braceChar {mode : Mode} (inCode : mode.isCode = true) (kind : BraceKind) :
    mode.step kind.char = .code := by
  cases mode <;> first | (cases kind <;> rfl) | cases inCode

theorem width_braceChar (kind : BraceKind) : kind.char.utf8Size = 1 := by
  cases kind <;> rfl

theorem kinds_append_brace {mode : Mode} {before : Text} (kind : BraceKind) (after : Text)
    (inCode : (mode.run before).isCode = true) :
    mode.kinds (before ++ kind.char :: after) =
      mode.kinds before ++ kind :: Mode.code.kinds after := by
  rw [kinds_append, kinds, braceAt?_eq_some_iff.2 ⟨inCode, rfl⟩, step_braceChar inCode]
  rfl

theorem run_append_brace {mode : Mode} {before : Text} (kind : BraceKind) (after : Text)
    (inCode : (mode.run before).isCode = true) :
    mode.run (before ++ kind.char :: after) = Mode.code.run after := by
  rw [run_append, run_cons, step_braceChar inCode]

theorem braces_append_brace {mode : Mode} {before : Text} (offset : Nat) (kind : BraceKind)
    (after : Text) (inCode : (mode.run before).isCode = true) :
    mode.braces offset (before ++ kind.char :: after) =
      mode.braces offset before ++ ⟨offset + Text.width before, kind⟩ ::
        Mode.code.braces (offset + Text.width before + 1) after := by
  rw [braces_append, braces, braceAt?_eq_some_iff.2 ⟨inCode, rfl⟩, step_braceChar inCode,
    width_braceChar]
  rfl

/-- A brace in the list of a text cuts the text. -/
theorem exists_of_braces_eq_append {mode : Mode} {offset : Nat} {s : Text}
    {left right : List Brace} {brace : Brace}
    (found : mode.braces offset s = left ++ brace :: right) :
    ∃ before after : Text, s = before ++ brace.kind.char :: after ∧
      (mode.run before).isCode = true ∧ brace.offset = offset + Text.width before ∧
      left = mode.braces offset before ∧
      right = Mode.code.braces (offset + Text.width before + 1) after := by
  induction s generalizing mode offset left with
  | nil => simp [braces] at found
  | cons c rest ih =>
      cases here : mode.braceAt? c with
      | none =>
          rw [braces, here] at found
          obtain ⟨before, after, split, inCode, place, lefts, rights⟩ := ih found
          refine ⟨c :: before, after, by rw [split]; rfl, inCode, ?_, ?_, ?_⟩
          · rw [place, Text.width_cons, Nat.add_assoc]
          · rw [lefts, braces, here]
            rfl
          · rw [rights, Text.width_cons, Nat.add_assoc offset]
      | some kind =>
          obtain ⟨inCode, isBrace⟩ := braceAt?_eq_some_iff.1 here
          rw [braces, here] at found
          cases left with
          | nil =>
              obtain ⟨rfl, rfl⟩ := List.cons.inj found
              refine ⟨[], rest, by rw [isBrace]; rfl, inCode, rfl, rfl, ?_⟩
              rw [isBrace, step_braceChar inCode, width_braceChar]
              rfl
          | cons first others =>
              obtain ⟨rfl, later⟩ := List.cons.inj found
              obtain ⟨before, after, split, inCode', place, lefts, rights⟩ := ih later
              refine ⟨c :: before, after, by rw [split]; rfl, inCode', ?_, ?_, ?_⟩
              · rw [place, Text.width_cons, Nat.add_assoc]
              · rw [lefts, braces, here]
                rfl
              · rw [rights, Text.width_cons, Nat.add_assoc offset]

/-- The structural braces of lines the first of which has the given number, where the walk
starts `offset` bytes into the first line. -/
def spots (mode : Mode) (number offset : Nat) : List Text → List (Spot × BraceKind)
  | [] => []
  | line :: rest =>
      (mode.braces offset line).map (fun brace => (⟨number, brace.offset⟩, brace.kind)) ++
        spots (mode.run line).carry.mode (number + 1) 0 rest

theorem map_snd_spots (mode : Mode) (number offset : Nat) (lines : List Text) :
    (mode.spots number offset lines).map (·.2) = mode.kindsOfLines lines := by
  induction lines generalizing mode number offset with
  | nil => rfl
  | cons line rest ih =>
      rw [spots, List.map_append, ih, List.map_map, kindsOfLines, ← map_kind_braces mode offset line]
      rfl

/-- A structural brace cuts the lines. -/
theorem exists_of_spots_eq_append {mode : Mode} {number offset : Nat} {lines : List Text}
    {left right : List (Spot × BraceKind)} {spot : Spot} {kind : BraceKind}
    (found : mode.spots number offset lines = left ++ (spot, kind) :: right) :
    ∃ (above : List Text) (before after : Text) (below : List Text),
      lines = above ++ (before ++ kind.char :: after) :: below ∧
      ((mode.runLines above).run before).isCode = true ∧
      spot.line = number + above.length ∧
      spot.offset = (if above = [] then offset else 0) + Text.width before ∧
      left = mode.spots number offset (above ++ [before]) ∧
      right = Mode.code.spots spot.line (spot.offset + 1) (after :: below) := by
  induction lines generalizing mode number offset left with
  | nil => simp [spots] at found
  | cons line rest ih =>
      rw [spots] at found
      rcases append_cons_cases found with ⟨more, lefts, rights⟩ | ⟨more, lefts, rfl⟩
      · obtain ⟨above, before, after, below, split, inCode, onLine, place, lefts', rights'⟩ :=
          ih rights
        refine ⟨line :: above, before, after, below, by rw [split]; rfl, inCode, ?_, ?_, ?_,
          rights'⟩
        · rw [onLine, List.length_cons]
          omega
        · rw [place, if_neg (List.cons_ne_nil _ _), ite_self]
        · rw [lefts, lefts', List.cons_append, spots]
      · obtain ⟨braces₁, braces₂, split, rfl, tail⟩ := List.map_eq_append_iff.1 lefts
        obtain ⟨brace, braces₃, rfl, same, rfl⟩ := List.map_eq_cons_iff.1 tail
        obtain ⟨rfl, rfl⟩ := Prod.mk.inj same
        obtain ⟨before, after, cut, inCode, place, rfl, rfl⟩ := exists_of_braces_eq_append split
        refine ⟨[], before, after, rest, by rw [cut]; rfl, inCode, rfl, ?_, ?_, ?_⟩
        · rw [place, if_pos rfl]
        · simp [spots]
        · rw [spots, cut, run_append_brace _ _ inCode, place]

/-- The places of the braces around one of them. -/
theorem spots_append_brace {mode : Mode} {above : List Text} {before : Text} (number offset : Nat)
    (kind : BraceKind) (after : Text) (below : List Text)
    (inCode : ((mode.runLines above).run before).isCode = true) :
    let spot : Spot :=
      ⟨number + above.length, (if above = [] then offset else 0) + Text.width before⟩
    mode.spots number offset (above ++ (before ++ kind.char :: after) :: below) =
      mode.spots number offset (above ++ [before]) ++
        (spot, kind) :: Mode.code.spots spot.line (spot.offset + 1) (after :: below) := by
  induction above generalizing mode number offset with
  | nil =>
      have inLine : (mode.run before).isCode = true := inCode
      simp only [List.nil_append, spots, braces_append_brace offset kind after inLine,
        run_append_brace kind after inLine, List.map_append, List.map_cons, List.append_assoc,
        List.cons_append, List.append_nil, if_true, List.length_nil, Nat.add_zero]
  | cons line rest ih =>
      have later := ih (number + 1) 0 inCode
      simp only [List.cons_append, spots, List.append_assoc, ite_self, Nat.zero_add,
        if_neg (List.cons_ne_nil line rest), List.length_cons] at later ⊢
      rw [later, Nat.add_comm rest.length 1, Nat.add_assoc]

end Mode

theorem withCarry_append (carry : Carry) (left right : List Text) :
    withCarry carry (left ++ right) =
      withCarry carry left ++ withCarry (carry.mode.runLines left).carry right := by
  induction left generalizing carry with
  | nil => simp [withCarry]
  | cons line rest ih =>
      rw [List.cons_append, withCarry, withCarry, ih, scanLine_eq_scan]
      rfl

theorem bracesFrom_eq_spots (carry : Carry) (number : Nat) (lines : List Text) :
    bracesFrom carry number lines = carry.mode.spots number 0 lines := by
  induction lines generalizing carry number with
  | nil => rfl
  | cons line rest ih =>
      rw [bracesFrom, Mode.spots, scanLine_eq_scan]
      simp only [Mode.scan, ih]

/-- Line by line a scan finds the braces that the walk over the lines finds. -/
theorem kinds_scanLines (carry : Carry) (lines : List Text) :
    (scanLines carry lines).flatMap (fun scan => scan.braces.map (·.kind)) =
      carry.mode.kindsOfLines lines := by
  induction lines generalizing carry with
  | nil => rfl
  | cons line rest ih =>
      rw [scanLines, List.flatMap_cons, ih, scanLine_eq_scan, Mode.kindsOfLines_cons]
      congr 1
      exact carry.mode.map_kind_braces 0 line

/-- What the last of the lines leaves open is what the walk over them leaves open. -/
theorem carry_getLast?_scanLines (carry : Carry) {lines : List Text} (nonempty : lines ≠ []) :
    (scanLines carry lines).getLast?.map (·.carry) =
      some (carry.mode.runLines lines).carry := by
  induction lines generalizing carry with
  | nil => exact absurd rfl nonempty
  | cons line rest ih =>
      cases rest with
      | nil =>
          simp [scanLines, scanLine_eq_scan, Mode.scan]
      | cons next others =>
          have here : (scanLine line carry).carry = (carry.mode.run line).carry := by
            rw [scanLine_eq_scan]
            rfl
          rw [Mode.runLines_cons, ← here]
          exact ih (scanLine line carry).carry (List.cons_ne_nil next others)

end MigrationSquash.Code
