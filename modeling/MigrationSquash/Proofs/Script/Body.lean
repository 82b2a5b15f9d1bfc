import MigrationSquash.Conversion
import MigrationSquash.Proofs.Arguments.Steps
import MigrationSquash.Proofs.Region.Divided

/-!
# Scripts as bodies

The body that runs a script is one call whose argument is a verbatim string.  In the string
each quote is doubled, so the lines of the script but the first stay as they are when the
body is moved in.  Main statement: what is read back of the moved body is the script with
the blanks at the end of its first line cut off, if another line follows.
-/

set_option autoImplicit false

namespace MigrationSquash.Script

open Code (Closed Mode Carry indentBlock indentLine withCarry scanLine Segments segments?)
open Text (AllBlank Unbroken joinLines pieces trim trimEnd isBlankText)

/-- A text with each quote doubled. -/
def double (s : Text) : Text := s.flatMap fun c => if c = '"' then ['"', '"'] else [c]

section Double

variable {c : Char} {s t : Text}

@[simp] theorem double_nil : double [] = [] := rfl

@[simp] theorem double_append : double (s ++ t) = double s ++ double t := List.flatMap_append

theorem double_quote : double ('"' :: s) = '"' :: '"' :: double s := rfl

theorem double_cons_of_ne (noQuote : c ≠ '"') : double (c :: s) = c :: double s := by
  rw [double, List.flatMap_cons, if_neg noQuote]
  rfl

theorem replaceAll_quote (s : Text) : Text.replaceAll ['"'] ['"', '"'] s = double s := by
  unfold Text.replaceAll
  induction s with
  | nil => rfl
  | cons c rest ih =>
      by_cases quote : c = '"'
      · subst quote
        exact congrArg (fun later => '"' :: '"' :: later) ih
      · have starts : Text.startsWith ['"'] (c :: rest) = false := by
          simp [Text.startsWith, Text.after?, Ne.symm quote]
        rw [Text.replaceFrom, starts, double_cons_of_ne quote, ih]
        rfl

/-- Reading the string gives back what was doubled. -/
theorem replaceAll_double (s : Text) : Text.replaceAll ['"', '"'] ['"'] (double s) = s := by
  unfold Text.replaceAll
  induction s with
  | nil => rfl
  | cons c rest ih =>
      by_cases quote : c = '"'
      · subst quote
        exact congrArg ('"' :: ·) ih
      · have starts : Text.startsWith ['"', '"'] (c :: double rest) = false := by
          simp [Text.startsWith, Text.after?, Ne.symm quote]
        rw [double_cons_of_ne quote, Text.replaceFrom, starts, ih]
        rfl

theorem unbroken_double (unbroken : Unbroken s) : Unbroken (double s) := by
  intro member
  obtain ⟨c, inside, found⟩ := List.mem_flatMap.1 member
  split at found
  · simp at found
  · obtain rfl := List.mem_singleton.1 found
    exact unbroken inside

theorem double_joinLines (lines : List Text) :
    double (joinLines lines) = joinLines (lines.map double) := by
  induction lines with
  | nil => rfl
  | cons line rest ih =>
      cases rest with
      | nil => rfl
      | cons next others =>
          rw [Text.joinLines_cons_cons, double_append, double_cons_of_ne (by decide), ih,
            List.map_cons, List.map_cons, List.map_cons, Text.joinLines_cons_cons]

theorem reverse_double (s : Text) : (double s).reverse = double s.reverse := by
  induction s with
  | nil => rfl
  | cons c rest ih =>
      rw [List.reverse_cons, double_append, ← ih, ← List.singleton_append, double_append,
        List.reverse_append]
      congr 1
      by_cases quote : c = '"'
      · rw [quote]
        rfl
      · rw [double_cons_of_ne quote]
        rfl

theorem dropWhile_double (s : Text) :
    (double s).dropWhile Text.isBlank = double (s.dropWhile Text.isBlank) := by
  induction s with
  | nil => rfl
  | cons c rest ih =>
      by_cases quote : c = '"'
      · subst quote
        rfl
      · rw [double_cons_of_ne quote, List.dropWhile_cons, List.dropWhile_cons]
        split
        · exact ih
        · exact (double_cons_of_ne quote).symm

theorem trimEnd_double (s : Text) : trimEnd (double s) = double (trimEnd s) := by
  rw [trimEnd, trimEnd, reverse_double, dropWhile_double, reverse_double]

theorem head?_double (s : Text) : (double s).head? = s.head? := by
  cases s with
  | nil => rfl
  | cons c rest =>
      by_cases quote : c = '"'
      · rw [quote]
        rfl
      · rw [double_cons_of_ne quote]
        rfl

theorem getLast?_double (s : Text) : (double s).getLast? = s.getLast? := by
  rw [← List.head?_reverse, ← List.head?_reverse, reverse_double, head?_double]

/-- Doubled quotes leave a verbatim string open. -/
theorem read_double (s : Text) :
    Mode.verbatim.read (double s) = .verbatim ∧ Mode.verbatim.kindsOfText (double s) = [] := by
  induction s with
  | nil => exact ⟨rfl, rfl⟩
  | cons c rest ih =>
      by_cases quote : c = '"'
      · subst quote
        exact ih
      · have stays : Mode.verbatim.next c = .verbatim := by
          unfold Mode.next
          split
          · rfl
          · exact if_neg quote
        rw [double_cons_of_ne quote, Mode.read_cons, Mode.kindsOfText, stays, ih.1, ih.2]
        exact ⟨rfl, rfl⟩

end Double

/-- What a call starts with, up to the string. -/
def callStart : Text := "migrationBuilder.Sql(@\"".toList

/-- What a call ends with, from the quote that ends the string. -/
def callEnd : Text := "\");".toList

/-- A script in the string of the call that runs it. -/
def call (sql : Text) : Text := callStart ++ (double sql ++ callEnd)

theorem toBody_eq (sql : Text) : toBody sql = if isBlankText sql then [] else call sql := by
  have same : callStart ++ Text.replaceAll ['"'] ['"', '"'] sql ++ callEnd = call sql := by
    rw [replaceAll_quote, List.append_assoc, call]
  rw [← same]
  rfl

theorem closed_call (sql : Text) : Closed (call sql) := by
  have start : Mode.code.read callStart = .verbatim := by decide
  have startKinds : Mode.code.kindsOfText callStart = [] := by decide
  have stop : (Mode.verbatim.read callEnd).carry = .code := by decide
  have stopKinds : Mode.verbatim.kindsOfText callEnd = [] := by decide
  obtain ⟨stays, noKinds⟩ := read_double sql
  constructor
  · rw [call, Mode.kindsOfText_append, Mode.kindsOfText_append, start, startKinds, noKinds, stays,
      stopKinds]
    exact .nil
  · rw [call, Mode.read_append, Mode.read_append, start, stays, stop]

theorem closed_toBody (sql : Text) : Closed (toBody sql) := by
  rw [toBody_eq]
  split
  · exact .nil
  · exact closed_call sql

/-- A script without the blanks at the end of its first line, if another line follows. -/
def settle (sql : Text) : Text :=
  match pieces sql with
  | first :: next :: rest => joinLines (trimEnd first :: next :: rest)
  | _ => sql

/-- A script of several lines the first of which ends in blanks. -/
def Ragged (sql : Text) : Prop :=
  ∃ first next rest, pieces sql = first :: next :: rest ∧ trimEnd first ≠ first

theorem settle_eq_iff (sql : Text) : settle sql = sql ↔ ¬ Ragged sql := by
  unfold settle Ragged
  split
  case h_1 first next rest split_ =>
    have whole := Text.joinLines_pieces sql
    have unbroken : ∀ piece ∈ pieces sql, Unbroken piece := fun _ => Text.unbroken_of_mem_pieces
    rw [split_] at whole unbroken
    constructor
    · rintro same ⟨_, _, _, again, cut⟩
      obtain ⟨rfl, -⟩ := List.cons.inj (split_.symm.trans again)
      have shorter : ∀ line ∈ trimEnd first :: next :: rest, Unbroken line := by
        intro line member
        rcases List.mem_cons.1 member with rfl | later
        · obtain ⟨blanks, split', -⟩ := Text.trimEnd_append_blanks first
          refine (unbroken first List.mem_cons_self).of_subset fun c inside => ?_
          rw [split']
          exact List.mem_append_left _ inside
        · exact unbroken line (List.mem_cons_of_mem _ later)
      have lines := Text.pieces_joinLines (List.cons_ne_nil _ _) shorter
      rw [same, split_] at lines
      exact cut (List.cons.inj lines).1.symm
    · intro even
      have first : trimEnd first = first := Classical.byContradiction fun cut =>
        even ⟨first, next, rest, split_, cut⟩
      rw [first, whole]
  case h_2 other =>
    constructor
    · rintro - ⟨first, next, rest, split_, -⟩
      exact other first next rest split_
    · exact fun _ => rfl

theorem carry_scanLine {line : Text} (unbroken : Unbroken line) (carry : Carry) :
    (scanLine line carry).carry = (carry.mode.read line).carry := by
  rw [Code.scanLine_eq_scan, (carry.mode.read_unbroken unbroken).1]
  rfl

/-- Lines inside a verbatim string stay as they are. -/
theorem indentLine_verbatim (indent last : Text) {middle : List Text}
    (unbroken : ∀ line ∈ middle, Unbroken line) :
    (withCarry .verbatim (middle.map double ++ [last])).map (indentLine indent) =
      middle.map double ++ [last] := by
  induction middle with
  | nil => rfl
  | cons line rest ih =>
      have stays : (scanLine (double line) .verbatim).carry = .verbatim := by
        rw [carry_scanLine (unbroken_double (unbroken line List.mem_cons_self))]
        exact congrArg Mode.carry (read_double line).1
      rw [List.map_cons, List.cons_append, withCarry, stays, List.map_cons,
        ih fun l member => unbroken l (List.mem_cons_of_mem line member)]
      rfl

theorem callStart_eq : callStart = "migrationBuilder.Sql(@".toList ++ ['"'] := by decide

/-- The line that a call starts with keeps no blanks at its end. -/
theorem trimEnd_callStart (first : Text) :
    trimEnd (callStart ++ double first) = callStart ++ double (trimEnd first) := by
  rw [callStart_eq, Text.trimEnd_concat_append _ _ (by decide), trimEnd_double]

theorem trimEnd_append_callEnd (s : Text) : trimEnd (s ++ callEnd) = s ++ callEnd := by
  rw [show callEnd = ['"', ')'] ++ [';'] from rfl, ← List.append_assoc,
    Text.trimEnd_concat_of_visible _ (by decide)]

theorem trim_call (sql : Text) : trim (call sql) = call sql := by
  have first : (call sql).head? = some 'm' := rfl
  have last : (call sql).getLast? = some ';' := by
    rw [call, List.getLast?_append, List.getLast?_append]
    rfl
  exact Text.trim_of_visible first last (by decide) (by decide)

theorem indentLine_code (indent line : Text) :
    indentLine indent (.code, line) = if isBlankText line then [] else indent ++ trimEnd line := rfl

theorem isBlankText_callStart (s : Text) : isBlankText (callStart ++ s) = false := rfl

section Lines

variable {first last indent : Text} {middle : List Text}

theorem call_joinLines (first last : Text) (middle : List Text) :
    call (joinLines (first :: (middle ++ [last]))) =
      joinLines ((callStart ++ double first) :: (middle.map double ++ [double last ++ callEnd])) := by
  rw [call, double_joinLines, List.map_cons, List.map_append, List.map_singleton,
    Text.joinLines_append_cons, ← List.cons_append, ← List.cons_append,
    Text.joinLines_concat_append]

theorem unbroken_callStart : Unbroken callStart := by
  unfold Unbroken
  decide

theorem unbroken_callEnd : Unbroken callEnd := by
  unfold Unbroken
  decide

/-- No line of a call ends in a carriage return unless one of the script does. -/
theorem ends_call (last : Text) (ends : ∀ line ∈ first :: middle, line.getLast? ≠ some '\r') :
    ∀ line ∈ (callStart ++ double first) :: (middle.map double ++ [double last ++ callEnd]),
      line.getLast? ≠ some '\r' := by
  intro line member
  rw [List.mem_cons, List.mem_append, List.mem_singleton, List.mem_map] at member
  rcases member with rfl | ⟨old, inside, rfl⟩ | rfl
  · have plain := ends first List.mem_cons_self
    rw [List.getLast?_append, getLast?_double]
    cases stop : first.getLast? with
    | none => decide
    | some c => rwa [stop] at plain
  · rw [getLast?_double]
    exact ends old (List.mem_cons_of_mem _ inside)
  · rw [List.getLast?_append]
    exact nofun

/-- The lines of a call are those of the script, if none of these loses its end. -/
theorem lines_call (unbroken : ∀ line ∈ first :: (middle ++ [last]), Unbroken line)
    (ends : ∀ line ∈ first :: middle, line.getLast? ≠ some '\r') :
    Text.lines (call (joinLines (first :: (middle ++ [last])))) =
      (callStart ++ double first) :: (middle.map double ++ [double last ++ callEnd]) := by
  have lastUnbroken : Unbroken (double last ++ callEnd) :=
    (unbroken_double (unbroken last (by simp))).append unbroken_callEnd
  have frontUnbroken : ∀ line ∈ (callStart ++ double first) :: middle.map double,
      Unbroken line := by
    intro line member
    rcases List.mem_cons.1 member with rfl | later
    · exact unbroken_callStart.append (unbroken_double (unbroken first List.mem_cons_self))
    · obtain ⟨old, inside, rfl⟩ := List.mem_map.1 later
      exact unbroken_double (unbroken old (by simp [inside]))
  have kept : ((callStart ++ double first) :: middle.map double).map Text.dropReturn =
      (callStart ++ double first) :: middle.map double :=
    (List.map_congr_left fun line member => Text.dropReturn_of_getLast?_ne
      (ends_call last ends line (by
        rw [← List.cons_append]
        exact List.mem_append_left _ member))).trans (List.map_id _)
  rw [call_joinLines, ← List.cons_append, Text.lines_joinLines_append _ _ frontUnbroken, kept,
    Text.lines_of_unbroken lastUnbroken (by simp [callEnd])]

theorem lines_call_of_unbroken (unbroken : Unbroken first) :
    Text.lines (call first) = [call first] :=
  Text.lines_of_unbroken (unbroken_callStart.append
    ((unbroken_double unbroken).append unbroken_callEnd)) nofun

end Lines

/-- A call that is moved in loses only blanks at the end of the first of several lines. -/
theorem trim_indentBlock_call {indent : Text} (allBlank : AllBlank indent) {sql : Text}
    (ends : ∀ piece ∈ pieces sql, piece.getLast? ≠ some '\r') :
    trim (joinLines (indentBlock (call sql) indent)) = call (settle sql) := by
  have whole := Text.joinLines_pieces sql
  have unbroken : ∀ piece ∈ pieces sql, Unbroken piece := fun _ => Text.unbroken_of_mem_pieces
  cases split : pieces sql with
  | nil => exact absurd split (Text.pieces_ne_nil sql)
  | cons first rest =>
    rw [split] at whole unbroken ends
    have firstUnbroken := unbroken first List.mem_cons_self
    rcases List.eq_nil_or_concat rest with rfl | ⟨middle, last, rfl⟩
    · obtain rfl : first = sql := whole
      have moved : indentBlock (call first) indent = [indent ++ call first] := by
        rw [indentBlock, lines_call_of_unbroken firstUnbroken]
        change [indentLine indent (.code, call first)] = _
        rw [indentLine_code, call, isBlankText_callStart, ← List.append_assoc,
          trimEnd_append_callEnd]
        rfl
      have even : settle first = first := by rw [settle, split]
      rw [moved, even, Text.joinLines_singleton, Text.trim_blanks_append allBlank, trim_call]
    · rw [List.concat_eq_append] at whole unbroken ends split
      have lines := lines_call unbroken fun line member => ends line (by
        rw [← List.cons_append]
        exact List.mem_append_left _ member)
      have start : (scanLine (callStart ++ double first) .code).carry = .verbatim := by
        rw [carry_scanLine (unbroken_callStart.append (unbroken_double firstUnbroken)),
          Mode.read_append]
        exact congrArg Mode.carry (read_double first).1
      have moved : indentBlock (call sql) indent =
          (indent ++ (callStart ++ double (trimEnd first))) ::
            (middle.map double ++ [double last ++ callEnd]) := by
        rw [indentBlock, ← whole, lines, withCarry, start, List.map_cons,
          indentLine_verbatim _ _ fun line member => unbroken line (by simp [member]),
          indentLine_code, isBlankText_callStart, trimEnd_callStart]
        rfl
      have settled : settle sql = joinLines (trimEnd first :: (middle ++ [last])) := by
        rw [settle, split]
        cases middle <;> rfl
      rw [moved, Text.joinLines_append_cons, Text.trim_blanks_append allBlank, ← call_joinLines,
        ← settled, trim_call]

theorem ends_toBody {sql : Text} (ends : ∀ piece ∈ pieces sql, piece.getLast? ≠ some '\r') :
    ∀ line ∈ Text.lines (toBody sql), line.getLast? ≠ some '\r' := by
  have whole := Text.joinLines_pieces sql
  have unbroken : ∀ piece ∈ pieces sql, Unbroken piece := fun _ => Text.unbroken_of_mem_pieces
  rw [toBody_eq]
  split
  · exact nofun
  · cases split : pieces sql with
    | nil => exact absurd split (Text.pieces_ne_nil sql)
    | cons first rest =>
      rw [split] at whole unbroken ends
      rcases List.eq_nil_or_concat rest with rfl | ⟨middle, last, rfl⟩
      · obtain rfl : first = sql := whole
        rw [lines_call_of_unbroken (unbroken first List.mem_cons_self)]
        intro line member
        obtain rfl := List.mem_singleton.1 member
        rw [call, List.getLast?_append, List.getLast?_append]
        exact nofun
      · rw [List.concat_eq_append] at whole unbroken ends
        have frontEnds : ∀ line ∈ first :: middle, line.getLast? ≠ some '\r' :=
          fun line member => ends line (by
            rw [← List.cons_append]
            exact List.mem_append_left _ member)
        rw [← whole, lines_call unbroken frontEnds]
        exact ends_call last frontEnds

/-- The text is one call that runs a script: its only argument is read as the script. -/
def RunsOnly (sql text : Text) : Prop :=
  ∃ argument stop,
    Text.startsWith "migrationBuilder.Sql(".toList text = true ∧
      Code.arguments? text (Text.width "migrationBuilder.Sql".toList) =
        some ([⟨none, argument⟩], stop) ∧
      Text.dropBytes stop text = [';'] ∧ Code.literalValue argument = some sql

theorem doubled_double (sql : Text) : Code.Doubled (double sql) := by
  induction sql with
  | nil => exact .nil
  | cons c rest ih =>
      by_cases quote : c = '"'
      · subst quote
        rw [double_quote]
        exact .quotes ih
      · rw [double_cons_of_ne quote]
        exact .char quote ih

/-- A verbatim string is one segment of the arguments up to the quote that ends it. -/
theorem segments?_verbatim (sql back : Text) (offset : Nat) :
    segments? .verbatim 0 offset (double sql ++ '"' :: ')' :: back) =
      some ⟨double sql ++ ['"'], [], offset + Text.width (double sql) + 2⟩ := by
  have split : double sql ++ '"' :: ')' :: back = double sql ++ ['"'] ++ ')' :: back := by simp
  have read : Code.Leads (')' :: back) .verbatim 0 (double sql ++ ['"']) (double sql ++ ['"'])
      .code 0 := (doubled_double sql).leads (by simp)
  rw [split, read, segments?, Text.width_append, Option.map_some, Segments.write, List.append_nil]
  rfl

/-- The verbatim string that holds a script. -/
def literal (sql : Text) : Text := '@' :: '"' :: (double sql ++ ['"'])

theorem trim_literal (sql : Text) : trim (literal sql) = literal sql := by
  have last : (literal sql).getLast? = some '"' :=
    List.getLast?_eq_some_iff.2 ⟨'@' :: '"' :: double sql, rfl⟩
  exact Text.trim_of_visible rfl last (by decide) (by decide)

theorem argument?_literal (sql : Text) :
    Code.argument? (literal sql) = some ⟨none, literal sql⟩ := by
  rw [Code.argument?, trim_literal]
  rfl

/-- The parenthesis that the call opens. -/
theorem call_eq (sql : Text) : call sql = "migrationBuilder.Sql".toList ++
    '(' :: '@' :: '"' :: (double sql ++ '"' :: ')' :: [';']) := by
  have start : callStart = "migrationBuilder.Sql".toList ++ ['(', '@', '"'] := by decide
  rw [call, start, List.append_assoc]
  rfl

theorem arguments?_call (sql : Text) :
    Code.arguments? (call sql) (Text.width "migrationBuilder.Sql".toList) =
      some ([⟨none, literal sql⟩], Text.width (callStart ++ (double sql ++ ['"', ')']))) := by
  have width : Text.width "migrationBuilder.Sql".toList + 3 + Text.width (double sql) + 2 =
      Text.width (callStart ++ (double sql ++ ['"', ')'])) := by
    simp only [Text.width_append]
    have start : Text.width callStart = Text.width "migrationBuilder.Sql".toList + 3 := by decide
    have stop : Text.width ['"', ')'] = 2 := by decide
    omega
  rw [call_eq, Code.arguments?_append, Code.argumentsFrom?, segments?, segments?_verbatim, ← width]
  have argument : Code.argument? (['@', '"'] ++ (double sql ++ ['"'])) =
      some ⟨none, literal sql⟩ := argument?_literal sql
  simp only [Option.map_some, Segments.write, List.filterMap_cons, List.filterMap_nil, argument]

theorem literalValue_literal (sql : Text) : Code.literalValue (literal sql) = some sql := by
  have inner : Code.between? ['@', '"'] ['"'] (literal sql) = some (double sql) := by
    have rest : Text.after? ['@', '"'] (literal sql) = some (double sql ++ ['"']) :=
      Text.after?_eq_some_iff.2 rfl
    rw [Code.between?, rest, Option.bind_some]
    exact Text.before?_eq_some_iff.2 rfl
  have visible : (literal sql).isEmpty = false := rfl
  have notNull : literal sql ≠ "null".toList := nofun
  simp only [Code.literalValue, trim_literal, inner, replaceAll_double, visible, notNull,
    decide_false, Bool.or_false, Bool.false_eq_true, if_false]

theorem runsOnly_call_iff (sql other : Text) : RunsOnly sql (call other) ↔ other = sql := by
  constructor
  · rintro ⟨argument, stop, -, given, -, value⟩
    rw [arguments?_call] at given
    obtain ⟨arguments, rfl⟩ := Prod.mk.inj (Option.some.inj given)
    obtain ⟨-, rfl⟩ := Code.Argument.mk.inj (List.cons.inj arguments).1
    rw [literalValue_literal] at value
    exact Option.some.inj value
  · rintro rfl
    refine ⟨_, _, rfl, arguments?_call other, ?_, literalValue_literal other⟩
    have split : call other = (callStart ++ (double other ++ ['"', ')'])) ++ [';'] := by
      simp [call, callEnd]
    rw [split, Code.dropBytes_width_append]

/-- The procedure is there and its body runs the script and nothing else. -/
def Executes (procedure : Procedure) (sql : Text) (lines : List Text) : Prop :=
  (Code.locate? procedure lines).isSome = true ∧
    if isBlankText sql then (Code.extract procedure lines).text = []
    else RunsOnly sql (Code.extract procedure lines).text

/-- A script for a procedure no line of which declares the other one or loses its end. -/
structure Plain (procedure : Procedure) (sql : Text) : Prop where
  silent : ∀ other, procedure ≠ other → Code.Silent other (toBody sql)
  ends : ∀ piece ∈ pieces sql, piece.getLast? ≠ some '\r'

/-- Of two scripts that are written into a file those are run whose procedure the file held and
whose first line keeps its end. -/
theorem executes_replaceBoth_iff {lines : List Text} (divided : Code.Divided lines)
    {sql : Procedure → Text} (plain : ∀ procedure, Plain procedure (sql procedure))
    (trimmed : ∀ procedure, trim (sql procedure) = sql procedure) (procedure : Procedure) :
    Executes procedure (sql procedure) (Conversion.replaceBoth lines (sql .up) (sql .down)) ↔
      (Code.locate? procedure lines).isSome = true ∧ ¬ Ragged (sql procedure) := by
  have fills := divided.fills (fun procedure => toBody (sql procedure))
    (fun procedure => closed_toBody (sql procedure))
    fun procedure other differ => (plain procedure).silent other differ
  change Code.Fills lines (Conversion.replaceBoth lines (sql .up) (sql .down)) _ at fills
  generalize Conversion.replaceBoth lines (sql .up) (sql .down) = filled at fills
  unfold Executes
  cases located : Code.locate? procedure lines with
  | none =>
      rw [fills.absent procedure located]
      simp
  | some bounds =>
      have text := fills.text procedure bounds located
      have present := fills.present procedure bounds located
      rw [present, text, toBody_eq]
      simp only [Option.isSome_some, true_and]
      cases blank : isBlankText (sql procedure) with
      | true =>
          have nothing : sql procedure = [] := by
            rw [← trimmed procedure]
            exact Text.trim_of_allBlank (Text.allBlank_iff.2 blank)
          have even : ¬ Ragged (sql procedure) := by
            rw [nothing]
            rintro ⟨first, next, rest, split, -⟩
            cases split
          simp only [if_true, even, not_false_eq_true, iff_true]
          rfl
      | false =>
          simp only [Bool.false_eq_true, if_false]
          rw [trim_indentBlock_call (Code.allBlank_bodyIndent bounds lines) (plain procedure).ends,
            runsOnly_call_iff, settle_eq_iff]

end MigrationSquash.Script
