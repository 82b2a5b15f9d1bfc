import MigrationSquash.Proofs.Scan.Layout

/-!
# Verbatim strings

The characters of the verbatim strings of a text, in the order in which they are read, with a
mark where each string starts.  Moving lines keeps all of them but the blanks that a verbatim
string starts its first line break with: those stand at the end of a line, and the line did
not start inside the string.
-/

set_option autoImplicit false

namespace MigrationSquash.Code

open Text (joinLines Unbroken)

namespace Mode

/-- Whether the character that was read belongs to a verbatim string. -/
def isVerbatim : Mode → Bool
  | .verbatim | .afterQuote => true
  | _ => false

/-- What reading one character adds to the verbatim strings: itself, after a mark if it is the
quote that opens one. -/
def quotedAt (mode : Mode) (c : Char) : List (Option Char) :=
  if (mode.next c).isVerbatim then
    if mode.isVerbatim then [some c] else [none, some c]
  else []

/-- The characters of verbatim strings in a text. -/
def quoted : Mode → Text → List (Option Char)
  | _, [] => []
  | mode, c :: rest => mode.quotedAt c ++ (mode.next c).quoted rest

variable (mode : Mode) (s left right : Text)

@[simp] theorem quoted_nil : mode.quoted [] = [] := rfl

theorem quoted_append :
    mode.quoted (left ++ right) = mode.quoted left ++ (mode.read left).quoted right := by
  induction left generalizing mode with
  | nil => rfl
  | cons c rest ih => simp [quoted, ih]

/-- What a verbatim string takes along where a line ends. -/
def quotedFeed (carry : Carry) : List (Option Char) :=
  if carry = .verbatim then [some '\n'] else []

theorem quoted_feed :
    mode.quoted ('\n' :: s) = quotedFeed mode.carry ++ mode.carry.mode.quoted s := by
  have here : mode.quotedAt '\n' = quotedFeed mode.carry := by cases mode <;> rfl
  rw [quoted, here]
  rfl

theorem isVerbatim_next_of_isBlank {c : Char} (blank : Text.isBlank c = true) :
    (mode.next c).isVerbatim = decide (mode.carry = .verbatim) := by
  unfold next
  split
  · cases mode <;> rfl
  · rw [step_of_isBlank mode blank]
    cases mode <;> rfl

theorem quoted_blanks {blanks : Text} (allBlank : Text.AllBlank blanks) :
    mode.quoted blanks = if mode.carry = .verbatim then blanks.map some else [] := by
  induction blanks generalizing mode with
  | nil => simp
  | cons c rest ih =>
      have blank := allBlank c List.mem_cons_self
      have later := ih (mode.next c) fun d member => allBlank d (List.mem_cons_of_mem c member)
      rw [mode.carry_next_of_isBlank blank] at later
      rw [quoted, later, quotedAt, mode.isVerbatim_next_of_isBlank blank]
      by_cases inside : mode.carry = .verbatim
      · have started : mode.isVerbatim = true := by
          cases mode <;> first | rfl | cases inside
        simp [inside, started]
      · simp [inside]

/-- Blanks before a line that starts outside of verbatim strings add nothing. -/
theorem quoted_blanks_append {carry : Carry} (outside : carry ≠ .verbatim) {blanks : Text}
    (allBlank : Text.AllBlank blanks) :
    carry.mode.quoted (blanks ++ s) = carry.mode.quoted s := by
  rw [quoted_append, quoted_blanks _ allBlank, read_mode_blanks allBlank, Carry.carry_mode,
    if_neg outside, List.nil_append]

end Mode

/-- The characters before the next mark, and those after it from mark to mark. -/
def groups : List (Option Char) → Text × List Text
  | [] => ([], [])
  | some c :: rest => (c :: (groups rest).1, (groups rest).2)
  | none :: rest => ([], (groups rest).1 :: (groups rest).2)

/-- The verbatim strings of a text that starts in code, each from quote to quote. -/
def verbatims (s : Text) : List Text := (groups (Mode.code.quoted s)).2

theorem groups_append_of_marked {left right : List (Option Char)} (marked : (groups right).1 = []) :
    groups (left ++ right) = ((groups left).1, (groups left).2 ++ (groups right).2) := by
  induction left with
  | nil => simp [groups, ← marked]
  | cons sign rest ih =>
      cases sign with
      | none => simp [groups, ih]
      | some c => simp [groups, ih]

theorem groups_quoted_of_outside {mode : Mode} (outside : mode.isVerbatim = false) (s : Text) :
    (groups (mode.quoted s)).1 = [] := by
  induction s generalizing mode with
  | nil => rfl
  | cons c rest ih =>
      rw [Mode.quoted, Mode.quotedAt]
      cases inside : (mode.next c).isVerbatim with
      | false => simpa using ih inside
      | true => simp [outside, groups]

/-- How many characters belong to verbatim strings. -/
def quotedCount (signs : List (Option Char)) : Nat := (signs.filterMap id).length

theorem quotedCount_append (left right : List (Option Char)) :
    quotedCount (left ++ right) = quotedCount left + quotedCount right := by
  simp [quotedCount]

theorem quotedCount_eq_groups (signs : List (Option Char)) :
    quotedCount signs = (groups signs).1.length + (groups signs).2.flatten.length := by
  induction signs with
  | nil => rfl
  | cons sign rest ih =>
      cases sign with
      | none => simpa [quotedCount, groups] using ih
      | some c =>
          simp only [quotedCount, groups, List.filterMap_cons, id, List.length_cons] at ih ⊢
          omega

theorem quotedCount_eq_verbatims (s : Text) :
    quotedCount (Mode.code.quoted s) = (verbatims s).flatten.length := by
  rw [quotedCount_eq_groups, groups_quoted_of_outside (by rfl), List.length_nil, Nat.zero_add,
    verbatims]

/-- What trimming the end of a line cuts off a verbatim string that the line opens. -/
def cutOff : Carry × Text → Text
  | (.verbatim, _) => []
  | (carry, line) =>
      if (scanLine line carry).carry = .verbatim then line.drop (Text.trimEnd line).length else []

/-- A line of a moved block: the same braces, and the same verbatim strings but for what was cut
off. -/
structure Moves (carry : Carry) (line moved : Text) : Prop where
  retells : carry.mode.Retells line moved
  quoted : carry.mode.quoted line =
    carry.mode.quoted moved ++ (cutOff (carry, line)).map some
  trimmed : cutOff (carry, moved) = []

theorem cutOff_eq {carry : Carry} (outside : carry ≠ .verbatim) (line : Text) :
    cutOff (carry, line) =
      if (scanLine line carry).carry = .verbatim then line.drop (Text.trimEnd line).length else [] := by
  cases carry with
  | verbatim => exact absurd rfl outside
  | code | blockComment => rfl

theorem cutOff_of_trimmed {carry : Carry} {line : Text} (trimmed : Text.trimEnd line = line) :
    cutOff (carry, line) = [] := by
  unfold cutOff
  split
  · rfl
  · next same =>
      obtain ⟨rfl, rfl⟩ := Prod.mk.inj same
      rw [trimmed, List.drop_length, ite_self]

theorem quoted_trimEnd {carry : Carry} (outside : carry ≠ .verbatim) {line : Text}
    (unbroken : Unbroken line) :
    carry.mode.quoted line =
      carry.mode.quoted (Text.trimEnd line) ++ (cutOff (carry, line)).map some := by
  obtain ⟨blanks, split, allBlank⟩ := Text.trimEnd_append_blanks line
  have shorter := unbroken_trimEnd unbroken
  have behind : (carry.mode.read (Text.trimEnd line)).carry = (scanLine line carry).carry := by
    rw [(carry.mode.read_unbroken shorter).1, scanLine_eq_scan]
    exact (carry.mode.retells_trimEnd line).2
  have tail : line.drop (Text.trimEnd line).length = blanks :=
    List.append_cancel_left ((Text.trimEnd_append_drop line).trans split)
  have whole := carry.mode.quoted_append (Text.trimEnd line) blanks
  rw [← split, Mode.quoted_blanks _ allBlank, behind] at whole
  rw [whole, cutOff_eq outside, tail]
  split <;> rfl

namespace Moves

variable {carry : Carry} {line : Text}

theorem inside : Moves .verbatim line line := ⟨.rfl, by simp [cutOff], rfl⟩

theorem blank (outside : carry ≠ .verbatim) (isBlank : Text.isBlankText line = true) :
    Moves carry line [] := by
  have allBlank := Text.allBlank_iff.2 isBlank
  have ends : (scanLine line carry).carry ≠ .verbatim := by
    rw [scanLine_eq_scan]
    have carries : (carry.mode.run line).carry = carry.mode.carry := Mode.carry_run_blanks allBlank _
    rw [Carry.carry_mode] at carries
    change (carry.mode.run line).carry ≠ .verbatim
    rwa [carries]
  refine ⟨Mode.retells_nil isBlank, ?_, cutOff_of_trimmed rfl⟩
  rw [Mode.quoted_blanks _ allBlank, Carry.carry_mode, if_neg outside, cutOff_eq outside,
    if_neg ends]
  rfl

theorem reindented {front back middle : Text} (outside : carry ≠ .verbatim)
    (unbroken : Unbroken line) (split : line = front ++ middle)
    (frontBlank : Text.AllBlank front)
    (backBlank : Text.AllBlank back) (visible : Text.isBlankText line = false) :
    Moves carry line (back ++ Text.trimEnd middle) := by
  subst split
  have middleVisible : Text.isBlankText middle = false := by
    have blank : front.all Text.isBlank = true := List.all_eq_true.2 frontBlank
    rwa [Text.isBlankText, List.all_append, blank, Bool.true_and] at visible
  have trimmed : Text.trimEnd (front ++ middle) = front ++ Text.trimEnd middle :=
    Text.trimEnd_append_of_visible middleVisible
  refine ⟨?_, ?_, cutOff_of_trimmed ?_⟩
  · have old := carry.mode.retells_trimEnd (front ++ middle)
    obtain ⟨oldKinds, oldMode⟩ := Mode.kinds_mode_blanks frontBlank carry (Text.trimEnd middle)
    obtain ⟨newKinds, newMode⟩ := Mode.kinds_mode_blanks backBlank carry (Text.trimEnd middle)
    rw [trimmed, Mode.Retells, oldKinds, oldMode] at old
    rwa [Mode.Retells, newKinds, newMode]
  · rw [quoted_trimEnd outside unbroken, trimmed, Mode.quoted_blanks_append _ outside frontBlank,
      Mode.quoted_blanks_append _ outside backBlank]
  · rw [Text.trimEnd_append_of_visible (by rwa [Text.isBlankText_trimEnd]), Text.trimEnd_trimEnd]

theorem of_relaid {moved : Text} (unbroken : Unbroken line) (relaid : Relaid carry line moved) :
    Moves carry line moved := by
  cases relaid with
  | inside inString => exact inString ▸ inside
  | blank outside isBlank => exact blank outside isBlank
  | moved outside visible split frontBlank backBlank =>
      exact reindented outside unbroken split frontBlank backBlank visible

theorem indentLine {indent : Text} (indentBlank : Text.AllBlank indent)
    (unbroken : Unbroken line) : Moves carry line (Code.indentLine indent (carry, line)) :=
  of_relaid unbroken (relaid_indentLine indentBlank carry line)

theorem dedentLine (common : Nat) (unbroken : Unbroken line) :
    Moves carry line (Code.dedentLine common (carry, line)) :=
  of_relaid unbroken (relaid_dedentLine common carry line)

end Moves

/-- Lines each of which was moved. -/
inductive MovesAll : Carry → List Text → List Text → Prop where
  | nil {carry : Carry} : MovesAll carry [] []
  | cons {carry : Carry} {line moved : Text} {rest others : List Text} :
      Moves carry line moved → MovesAll (scanLine line carry).carry rest others →
      MovesAll carry (line :: rest) (moved :: others)

/-- How much was cut off verbatim strings in all. -/
def cutCount (carry : Carry) (lines : List Text) : Nat :=
  ((withCarry carry lines).flatMap cutOff).length

theorem cutCount_cons (carry : Carry) (line : Text) (rest : List Text) :
    cutCount carry (line :: rest) =
      (cutOff (carry, line)).length + cutCount (scanLine line carry).carry rest := by
  rw [cutCount, withCarry, List.flatMap_cons, List.length_append]
  rfl

theorem cutCount_append (carry : Carry) (lines more : List Text) :
    cutCount carry (lines ++ more) =
      cutCount carry lines + cutCount (carry.mode.runLines lines).carry more := by
  rw [cutCount, withCarry_append, List.flatMap_append, List.length_append]
  rfl

namespace MovesAll

theorem map_withCarry {move : Carry × Text → Text} {carry : Carry} {lines : List Text}
    (moves : ∀ pair ∈ withCarry carry lines, Moves pair.1 pair.2 (move pair)) :
    MovesAll carry lines ((withCarry carry lines).map move) := by
  induction lines generalizing carry with
  | nil => exact .nil
  | cons line rest ih =>
      rw [withCarry, List.map_cons]
      refine .cons (moves (carry, line) List.mem_cons_self) (ih fun pair member => ?_)
      exact moves pair (List.mem_cons_of_mem _ member)

theorem cutCount_moved {carry : Carry} {lines moved : List Text}
    (moves : MovesAll carry lines moved) : cutCount carry moved = 0 := by
  induction moves with
  | nil => rfl
  | @cons carry line moved rest others move _ ih =>
      rw [cutCount_cons, move.trimmed, move.retells.carry_scanLine, ih]
      rfl

/-- Moved lines hold the verbatim strings of the old ones, less what was cut off. -/
theorem quoted_moved {carry : Carry} {lines moved : List Text} (moves : MovesAll carry lines moved)
    (unbroken : ∀ line ∈ lines, Unbroken line) (unbrokenMoved : ∀ line ∈ moved, Unbroken line) :
    quotedCount (carry.mode.quoted (joinLines moved)) + cutCount carry lines =
        quotedCount (carry.mode.quoted (joinLines lines)) ∧
      (cutCount carry lines = 0 →
        carry.mode.quoted (joinLines moved) = carry.mode.quoted (joinLines lines)) := by
  induction moves with
  | nil => exact ⟨rfl, fun _ => rfl⟩
  | @cons carry line moved rest others move later ih =>
      obtain ⟨counts, same⟩ := ih (fun l member => unbroken l (List.mem_cons_of_mem _ member))
        fun l member => unbrokenMoved l (List.mem_cons_of_mem _ member)
      have cut : quotedCount ((cutOff (carry, line)).map some) = (cutOff (carry, line)).length := by
        simp [quotedCount, List.filterMap_map]
      have total := cutCount_cons carry line rest
      have lineCount : quotedCount (carry.mode.quoted line) =
          quotedCount (carry.mode.quoted moved) + (cutOff (carry, line)).length := by
        rw [move.quoted, quotedCount_append, cut]
      have lineSame : (cutOff (carry, line)).length = 0 →
          carry.mode.quoted moved = carry.mode.quoted line := by
        intro none
        rw [move.quoted, List.eq_nil_of_length_eq_zero none, List.map_nil, List.append_nil]
      cases later with
      | nil =>
          rw [Text.joinLines_singleton, Text.joinLines_singleton, total]
          refine ⟨?_, fun none => lineSame (by omega)⟩
          rw [lineCount]
          rfl
      | @cons _ next nextMoved more moreMoved nextMove rest =>
          have behind : (carry.mode.read line).carry = (scanLine line carry).carry := by
            rw [(carry.mode.read_unbroken (unbroken line List.mem_cons_self)).1, scanLine_eq_scan]
            rfl
          have behindMoved : (carry.mode.read moved).carry = (scanLine line carry).carry := by
            rw [(carry.mode.read_unbroken (unbrokenMoved moved List.mem_cons_self)).1,
              scanLine_eq_scan]
            exact move.retells.2
          rw [Text.joinLines_cons_cons, Text.joinLines_cons_cons, Mode.quoted_append,
            Mode.quoted_append, Mode.quoted_feed, Mode.quoted_feed, behind, behindMoved, total]
          constructor
          · simp only [quotedCount_append]
            omega
          · intro none
            rw [same (by omega), lineSame (by omega)]

end MovesAll

variable {s : Text}

/-- Splitting a closed text into lines and joining them again keeps its verbatim strings. -/
theorem Closed.quoted_lines (closed : Closed s) (noReturn : '\r' ∉ s) :
    Mode.code.quoted (joinLines (Text.lines s)) = Mode.code.quoted s := by
  obtain ⟨front, last, split, lines, shape⟩ := Text.lines_eq_pieces noReturn
  have whole := Text.joinLines_pieces s
  rw [split] at whole
  rcases shape with rfl | single
  · by_cases empty : front = []
    · subst empty
      rw [lines, ← whole]
      rfl
    · rw [Text.joinLines_append front [[]] empty (by simp), Text.joinLines_singleton] at whole
      have ends := closed.ends
      rw [← whole, Mode.read_append, Mode.read_cons, Mode.next_feed, Mode.read_nil,
        Carry.carry_mode] at ends
      rw [lines, ← whole, Mode.quoted_append, Mode.quoted_feed, ends]
      simp [Mode.quotedFeed, Text.lines]
  · rw [lines, single, whole]

/-- No more is cut off the lines of a text than off its pieces. -/
theorem cutCount_lines_of_pieces (noReturn : '\r' ∉ s)
    (none : cutCount .code (Text.pieces s) = 0) : cutCount .code (Text.lines s) = 0 := by
  obtain ⟨front, last, split, lines, shape⟩ := Text.lines_eq_pieces noReturn
  rw [split] at none
  rcases shape with rfl | single
  · rw [cutCount_append] at none
    rw [lines, show Text.lines [] = [] from rfl, List.append_nil]
    omega
  · rwa [lines, single]

theorem Closed.quoted_indentBlock {indent : Text}
    (indentBlank : Text.AllBlank indent) (indentUnbroken : Unbroken indent)
    (closed : Closed s) (noReturn : '\r' ∉ s) :
    quotedCount (Mode.code.quoted (joinLines (indentBlock s indent))) +
          cutCount .code (Text.lines s) = quotedCount (Mode.code.quoted s) ∧
      (cutCount .code (Text.lines s) = 0 →
        Mode.code.quoted (joinLines (indentBlock s indent)) = Mode.code.quoted s) := by
  have moves : MovesAll .code (Text.lines s) (indentBlock s indent) :=
    .map_withCarry fun pair member => Moves.indentLine indentBlank
      (Text.unbroken_of_mem_lines (mem_of_mem_withCarry member))
  have moved := moves.quoted_moved (fun _ => Text.unbroken_of_mem_lines)
    (unbroken_indentBlock indentUnbroken s)
  rw [← closed.quoted_lines noReturn]
  exact moved

theorem movesAll_dedentBody (s : Text) (firstIndent : Option Nat) :
    MovesAll .code (Text.lines s) (dedentBody s firstIndent) := by
  have unbroken : ∀ line ∈ Text.lines s, Unbroken line := fun _ => Text.unbroken_of_mem_lines
  unfold dedentBody
  cases split : Text.lines s with
  | nil => exact .nil
  | cons first rest =>
      rw [split] at unbroken
      refine .cons (.dedentLine 0 (unbroken first List.mem_cons_self)) (.map_withCarry ?_)
      intro pair member
      exact .dedentLine _ (unbroken pair.2 (List.mem_cons_of_mem _ (mem_of_mem_withCarry member)))

theorem Closed.quoted_dedentBody (firstIndent : Option Nat) (closed : Closed s)
    (noReturn : '\r' ∉ s) :
    quotedCount (Mode.code.quoted (joinLines (dedentBody s firstIndent))) +
          cutCount .code (Text.lines s) = quotedCount (Mode.code.quoted s) ∧
      (cutCount .code (Text.lines s) = 0 →
        Mode.code.quoted (joinLines (dedentBody s firstIndent)) = Mode.code.quoted s) := by
  have moved := (movesAll_dedentBody s firstIndent).quoted_moved
    (fun _ => Text.unbroken_of_mem_lines) (unbroken_dedentBody s firstIndent)
  rw [← closed.quoted_lines noReturn]
  exact moved

theorem Closed.verbatims_trim (closed : Closed s) : verbatims (Text.trim s) = verbatims s := by
  obtain ⟨front, back, split, frontBlank, backBlank⟩ := Text.blanks_append_trim s
  have ends := closed.trim.ends
  generalize Text.trim s = middle at split ends
  subst split
  have start : Mode.code.read front = Mode.code := Mode.read_mode_blanks frontBlank .code
  have front_ : Mode.code.quoted front = [] := Mode.quoted_blanks _ frontBlank
  have back_ : (Mode.code.read middle).quoted back = [] := by
    rw [Mode.quoted_blanks _ backBlank, ends]
    rfl
  rw [verbatims, verbatims, Mode.quoted_append, Mode.quoted_append, start, front_, back_,
    List.nil_append, List.append_nil]

end MigrationSquash.Code
