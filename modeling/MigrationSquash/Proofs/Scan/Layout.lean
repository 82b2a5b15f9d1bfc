import MigrationSquash.Proofs.Scan.Depth
import MigrationSquash.Proofs.Scan.Reading

/-!
# Braces of moved blocks

A line that is moved in or out keeps its braces and what it leaves open, and so does a block
of them.  A text is closed if its braces match and nothing is open behind it; moving it
keeps it closed, and closed texts can be written below each other.
-/

set_option autoImplicit false

namespace MigrationSquash

namespace Code

open Text (joinLines Unbroken)

namespace Mode

/-- A line with the same braces that leaves the same open. -/
def Retells (mode : Mode) (line other : Text) : Prop :=
  mode.kinds other = mode.kinds line ∧ (mode.run other).carry = (mode.run line).carry

theorem Retells.rfl {mode : Mode} {line : Text} : mode.Retells line line := ⟨.refl _, .refl _⟩

theorem Retells.carry_scanLine {carry : Carry} {line other : Text}
    (retells : carry.mode.Retells line other) :
    (scanLine other carry).carry = (scanLine line carry).carry := by
  rw [scanLine_eq_scan, scanLine_eq_scan]
  exact retells.2

theorem retells_append_blanks (mode : Mode) (line : Text) {blanks : Text}
    (allBlank : Text.AllBlank blanks) : mode.Retells (line ++ blanks) line := by
  rw [Retells, kinds_append, kinds_blanks allBlank, run_append, carry_run_blanks allBlank,
    List.append_nil]
  exact ⟨.refl _, .refl _⟩

theorem retells_trimEnd (mode : Mode) (line : Text) : mode.Retells line (Text.trimEnd line) := by
  obtain ⟨blanks, split, allBlank⟩ := Text.trimEnd_append_blanks line
  have shorter := mode.retells_append_blanks (Text.trimEnd line) allBlank
  rwa [← split] at shorter

theorem kinds_mode_blanks {blanks : Text} (allBlank : Text.AllBlank blanks)
    (carry : Carry) (line : Text) :
    carry.mode.kinds (blanks ++ line) = carry.mode.kinds line ∧
      carry.mode.run (blanks ++ line) = carry.mode.run line := by
  rw [kinds_append, kinds_blanks allBlank, run_append, run_mode_blanks allBlank]
  exact ⟨.refl _, .refl _⟩

theorem retells_nil {carry : Carry} {line : Text} (blank : Text.isBlankText line = true) :
    carry.mode.Retells line [] := by
  have allBlank := Text.allBlank_iff.2 blank
  exact carry.mode.retells_append_blanks [] allBlank

end Mode

variable {indent : Text}

/-- What is made of a line that is moved: nothing is done to it inside of a string, nothing is left
of a blank line, and of any other line the blanks around it are replaced. -/
inductive Relaid (carry : Carry) (line : Text) : Text → Prop where
  | inside (inString : carry = .verbatim) : Relaid carry line line
  | blank (outside : carry ≠ .verbatim) (isBlank : Text.isBlankText line = true) :
      Relaid carry line []
  | moved {front back rest : Text} (outside : carry ≠ .verbatim)
      (visible : Text.isBlankText line = false) (split : line = front ++ rest)
      (frontBlank : Text.AllBlank front) (backBlank : Text.AllBlank back) :
      Relaid carry line (back ++ Text.trimEnd rest)

theorem relaid_indentLine (indentBlank : Text.AllBlank indent) (carry : Carry) (line : Text) :
    Relaid carry line (indentLine indent (carry, line)) := by
  unfold indentLine
  split
  · next same =>
      obtain ⟨rfl, rfl⟩ := Prod.mk.inj same
      exact .inside rfl
  · next outside same =>
      obtain ⟨rfl, rfl⟩ := Prod.mk.inj same
      split
      case isTrue isBlank => exact .blank outside isBlank
      case isFalse visible =>
        exact .moved outside (by simpa using visible) (List.nil_append _).symm
          (List.forall_mem_nil _) indentBlank

/-- What is cut off the start of a line when it is moved out indents it. -/
theorem isIndent_of_mem_take {line : Text} {n : Nat} {c : Char}
    (member : c ∈ line.take (min n (Text.indentation line).length)) : Text.isIndent c = true := by
  have start : Text.indentation line = line.take (Text.indentation line).length :=
    List.prefix_iff_eq_take.1 (List.takeWhile_prefix _)
  rw [← List.take_take, ← start] at member
  exact List.mem_takeWhile_imp (List.mem_of_mem_take member)

theorem relaid_dedentLine (common : Nat) (carry : Carry) (line : Text) :
    Relaid carry line (dedentLine common (carry, line)) := by
  unfold dedentLine
  split
  · next same =>
      obtain ⟨rfl, rfl⟩ := Prod.mk.inj same
      exact .inside rfl
  · next outside same =>
      obtain ⟨rfl, rfl⟩ := Prod.mk.inj same
      split
      case isTrue isBlank => exact .blank outside isBlank
      case isFalse visible =>
        exact .moved outside (by simpa using visible) (List.take_append_drop _ _).symm
          (fun _ member => Text.isBlank_of_isIndent (isIndent_of_mem_take member))
          (List.forall_mem_nil _)

theorem Relaid.retells {carry : Carry} {line other : Text} (relaid : Relaid carry line other) :
    carry.mode.Retells line other := by
  cases relaid with
  | inside => exact .rfl
  | blank outside isBlank => exact Mode.retells_nil isBlank
  | @moved front back rest outside visible split frontBlank backBlank =>
      subst split
      obtain ⟨oldKinds, oldMode⟩ := Mode.kinds_mode_blanks frontBlank carry rest
      obtain ⟨newKinds, newMode⟩ := Mode.kinds_mode_blanks backBlank carry (Text.trimEnd rest)
      rw [Mode.Retells, oldKinds, oldMode, newKinds, newMode]
      exact carry.mode.retells_trimEnd rest

theorem retells_indentLine (indentBlank : Text.AllBlank indent) (carry : Carry)
    (line : Text) : carry.mode.Retells line (indentLine indent (carry, line)) :=
  (relaid_indentLine indentBlank carry line).retells

theorem retells_dedentLine (common : Nat) (carry : Carry) (line : Text) :
    carry.mode.Retells line (dedentLine common (carry, line)) :=
  (relaid_dedentLine common carry line).retells

theorem map_snd_withCarry (carry : Carry) (lines : List Text) :
    (withCarry carry lines).map Prod.snd = lines := by
  induction lines generalizing carry with
  | nil => rfl
  | cons line rest ih => rw [withCarry, List.map_cons, ih]

theorem mem_of_mem_withCarry {carry : Carry} {lines : List Text} {pair : Carry × Text}
    (member : pair ∈ withCarry carry lines) : pair.2 ∈ lines := by
  rw [← map_snd_withCarry carry lines]
  exact List.mem_map_of_mem member

/-- Moved lines start in the same place as the old ones if each of them is retold. -/
theorem withCarry_map {move : Carry × Text → Text}
    (retells : ∀ (carry : Carry) (line : Text), carry.mode.Retells line (move (carry, line)))
    (carry : Carry) (lines : List Text) :
    withCarry carry ((withCarry carry lines).map move) =
      (withCarry carry lines).map fun pair => (pair.1, move pair) := by
  induction lines generalizing carry with
  | nil => rfl
  | cons line rest ih =>
      rw [withCarry, List.map_cons, withCarry, (retells carry line).carry_scanLine, ih, List.map_cons]

/-- Lines each of which is retold have the same braces and leave the same open. -/
theorem kindsOfLines_map_withCarry {move : Carry × Text → Text}
    (retells : ∀ (carry : Carry) (line : Text), carry.mode.Retells line (move (carry, line)))
    (carry : Carry) (lines : List Text) :
    carry.mode.kindsOfLines ((withCarry carry lines).map move) = carry.mode.kindsOfLines lines ∧
      carry.mode.runLines ((withCarry carry lines).map move) = carry.mode.runLines lines := by
  induction lines generalizing carry with
  | nil => exact ⟨rfl, rfl⟩
  | cons line rest ih =>
      obtain ⟨kinds, carries⟩ := retells carry line
      obtain ⟨laterKinds, laterModes⟩ := ih (scanLine line carry).carry
      rw [scanLine_eq_scan] at laterKinds laterModes
      rw [withCarry, List.map_cons, Mode.kindsOfLines_cons, Mode.kindsOfLines_cons,
        Mode.runLines_cons, Mode.runLines_cons, kinds, carries, scanLine_eq_scan]
      exact ⟨congrArg (_ ++ ·) laterKinds, laterModes⟩

theorem kindsOfLines_indentBlock (indentBlank : Text.AllBlank indent) (s : Text) :
    Mode.code.kindsOfLines (indentBlock s indent) = Mode.code.kindsOfText s ∧
      (Mode.code.runLines (indentBlock s indent)).carry = (Mode.code.read s).carry := by
  obtain ⟨kinds, modes⟩ :=
    kindsOfLines_map_withCarry (retells_indentLine indentBlank) .code (Text.lines s)
  obtain ⟨ofText, carries⟩ := Mode.code.kindsOfLines_lines s
  exact ⟨kinds.trans ofText, (congrArg Mode.carry modes).trans carries⟩

theorem kindsOfLines_dedentBody (s : Text) (firstIndent : Option Nat) :
    Mode.code.kindsOfLines (dedentBody s firstIndent) = Mode.code.kindsOfText s ∧
      (Mode.code.runLines (dedentBody s firstIndent)).carry = (Mode.code.read s).carry := by
  obtain ⟨ofText, carries⟩ := Mode.code.kindsOfLines_lines s
  rw [← ofText, ← carries]
  cases split : Text.lines s with
  | nil => simp [dedentBody, split, withCarry]
  | cons first rest =>
      obtain ⟨kinds, modes⟩ := retells_dedentLine 0 .code first
      have start : (Mode.code.run first).carry = (scanLine first .code).carry := by
        rw [scanLine_eq_scan]
        rfl
      have later := kindsOfLines_map_withCarry
        (retells_dedentLine ((((withCarry (scanLine first .code).carry rest).filterMap
          measuredIndent? ++ firstIndent.toList).min?).getD 0))
        (scanLine first .code).carry rest
      simp only [dedentBody, split, withCarry, Mode.kindsOfLines_cons, Mode.runLines_cons]
      change Mode.code.kinds _ = Mode.code.kinds first at kinds
      change (Mode.code.run _).carry = (Mode.code.run first).carry at modes
      rw [kinds, modes, start, later.1, later.2]
      exact ⟨rfl, rfl⟩

/-- A text whose braces match and behind which nothing is open. -/
structure Closed (s : Text) : Prop where
  balanced : Balanced (Mode.code.kindsOfText s)
  ends : (Mode.code.read s).carry = .code

namespace Closed

theorem nil : Closed [] := ⟨.nil, rfl⟩

theorem trim {s : Text} (closed : Closed s) : Closed (Text.trim s) := by
  obtain ⟨kinds, carries⟩ := Mode.read_trim s
  exact ⟨kinds ▸ closed.balanced, carries ▸ closed.ends⟩

theorem append_feed {s t : Text} (first : Closed s) (second : Closed t) :
    Closed (s ++ '\n' :: t) := by
  constructor
  · rw [Mode.kindsOfText_append, Mode.kindsOfText_feed, first.ends]
    exact first.balanced.append second.balanced
  · rw [Mode.read_append, Mode.read_cons, Mode.next_feed, first.ends]
    exact second.ends

theorem of_lines {lines : List Text} (unbroken : ∀ line ∈ lines, Unbroken line)
    (balanced : Balanced (Mode.code.kindsOfLines lines))
    (ends : (Mode.code.runLines lines).carry = .code) : Closed (joinLines lines) :=
  ⟨Mode.code.kindsOfText_joinLines unbroken ▸ balanced,
    Mode.code.carry_read_joinLines unbroken ▸ ends⟩

end Closed

section Characters

variable {c : Char}

theorem not_mem_trimEnd {line : Text} (absent : c ∉ line) : c ∉ Text.trimEnd line := by
  obtain ⟨blanks, split, -⟩ := Text.trimEnd_append_blanks line
  intro member
  rw [split] at absent
  exact absent (List.mem_append_left _ member)

theorem not_mem_indentLine (notInIndent : c ∉ indent) {carry : Carry} {line : Text}
    (absent : c ∉ line) : c ∉ indentLine indent (carry, line) := by
  unfold indentLine
  split
  · next same => exact (Prod.mk.inj same).2 ▸ absent
  · next same =>
      obtain ⟨rfl, rfl⟩ := Prod.mk.inj same
      split
      · exact List.not_mem_nil
      · intro member
        exact (List.mem_append.1 member).elim notInIndent (not_mem_trimEnd absent)

theorem not_mem_dedentLine (common : Nat) {carry : Carry} {line : Text} (absent : c ∉ line) :
    c ∉ dedentLine common (carry, line) := by
  unfold dedentLine
  split
  · next same => exact (Prod.mk.inj same).2 ▸ absent
  · next same =>
      obtain ⟨rfl, rfl⟩ := Prod.mk.inj same
      split
      · exact List.not_mem_nil
      · exact not_mem_trimEnd fun member => absent (List.mem_of_mem_drop member)

theorem not_mem_indentBlock (notInIndent : c ∉ indent) {s : Text}
    (absent : ∀ line ∈ Text.lines s, c ∉ line) : ∀ line ∈ indentBlock s indent, c ∉ line := by
  intro line member
  obtain ⟨⟨carry, old⟩, inside, rfl⟩ := List.mem_map.1 member
  exact not_mem_indentLine notInIndent (absent old (mem_of_mem_withCarry inside))

theorem getLast?_indentBlock_ne (blank : Text.isBlank c = true) {s : Text}
    (ends : ∀ line ∈ Text.lines s, line.getLast? ≠ some c) :
    ∀ line ∈ indentBlock s indent, line.getLast? ≠ some c := by
  intro line member
  obtain ⟨⟨carry, old⟩, inside, rfl⟩ := List.mem_map.1 member
  unfold indentLine
  split
  · next same => exact (Prod.mk.inj same).2 ▸ ends old (mem_of_mem_withCarry inside)
  · next same =>
      obtain ⟨rfl, rfl⟩ := Prod.mk.inj same
      split
      · exact nofun
      · next visible =>
          have other := Text.getLast?_trimEnd_ne blank old
          rw [List.getLast?_append]
          cases stop : (Text.trimEnd old).getLast? with
          | none =>
              rw [← Text.isBlankText_trimEnd, List.getLast?_eq_none_iff.1 stop] at visible
              exact absurd rfl visible
          | some d =>
              rw [stop] at other
              exact other

theorem not_mem_dedentBody {s : Text} (firstIndent : Option Nat)
    (absent : ∀ line ∈ Text.lines s, c ∉ line) : ∀ line ∈ dedentBody s firstIndent, c ∉ line := by
  intro line member
  unfold dedentBody at member
  split at member
  · cases member
  · next first rest split_ =>
      have old : ∀ pair ∈ first :: rest, c ∉ pair.2 := fun pair inside =>
        absent pair.2 (mem_of_mem_withCarry (split_ ▸ inside))
      rcases List.mem_cons.1 member with rfl | later
      · exact not_mem_dedentLine 0 (old first List.mem_cons_self)
      · obtain ⟨⟨carry, other⟩, inside, rfl⟩ := List.mem_map.1 later
        exact not_mem_dedentLine _ (old (carry, other) (List.mem_cons_of_mem _ inside))

end Characters

theorem unbroken_trimEnd {line : Text} (unbroken : Unbroken line) :
    Unbroken (Text.trimEnd line) :=
  not_mem_trimEnd unbroken

theorem unbroken_indentBlock (indentUnbroken : Unbroken indent) (s : Text) :
    ∀ line ∈ indentBlock s indent, Unbroken line :=
  not_mem_indentBlock indentUnbroken fun _ => Text.unbroken_of_mem_lines

theorem unbroken_dedentBody (s : Text) (firstIndent : Option Nat) :
    ∀ line ∈ dedentBody s firstIndent, Unbroken line :=
  not_mem_dedentBody firstIndent fun _ => Text.unbroken_of_mem_lines

namespace Closed

variable {s : Text} (closed : Closed s)
include closed

theorem joinLines_indentBlock (indentBlank : Text.AllBlank indent)
    (indentUnbroken : Unbroken indent) : Closed (joinLines (indentBlock s indent)) := by
  obtain ⟨kinds, carries⟩ := kindsOfLines_indentBlock indentBlank s
  exact .of_lines (unbroken_indentBlock indentUnbroken s) (kinds ▸ closed.balanced)
    (carries.trans closed.ends)

theorem joinLines_dedentBody (firstIndent : Option Nat) :
    Closed (joinLines (dedentBody s firstIndent)) := by
  obtain ⟨kinds, carries⟩ := kindsOfLines_dedentBody s firstIndent
  exact .of_lines (unbroken_dedentBody s firstIndent) (kinds ▸ closed.balanced)
    (carries.trans closed.ends)

end Closed

end Code

end MigrationSquash
