import Mathlib.Data.List.ReduceOption
import MigrationSquash.Proofs.Script.Inert
import MigrationSquash.Proofs.Script.Words

/-!
# Passes over rows

What the passes over a script do where it is laid out in rows of which some are removed as a
whole.  Main statements: a search that finds exactly some of the rows gives their spans, cutting
these spans removes the rows, and so does removing the lines that control transactions if these
are the rows with such a line.
-/

set_option autoImplicit false

namespace MigrationSquash.Script

open Text (isBlank joinLines pieces)

variable {α : Type} {text : α → Text} {removed : α → Bool} {rows : List (Option α)}

/-- The texts of rows. -/
def textRows (text : α → Text) (rows : List (Option α)) : List (Option Text) :=
  rows.map (Option.map text)

/-- The rows that are left if some are removed.  Where the last one is removed, the line feed
before it leaves a blank line. -/
def dropRows (removed : α → Bool) : List (Option α) → List (Option α)
  | [] => []
  | [row] => [if row.any removed then none else row]
  | row :: next :: rest =>
      if row.any removed then dropRows removed (next :: rest)
      else row :: dropRows removed (next :: rest)

/-- The spans of the rows that are removed, the first row starting at `position`. -/
def rowSpans (text : α → Text) (removed : α → Bool) : Nat → List (Option α) → List Span
  | _, [] => []
  | position, none :: rest => rowSpans text removed (position + 1) rest
  | position, some a :: rest =>
      (if removed a then [⟨position, position + (text a).length⟩] else []) ++
        rowSpans text removed (position + (text a).length + 1) rest

section Drop

theorem dropRows_cons (removed : α → Bool) (row : Option α) (nonempty : rows ≠ []) :
    dropRows removed (row :: rows) =
      if row.any removed then dropRows removed rows else row :: dropRows removed rows := by
  obtain ⟨next, rest, rfl⟩ := List.exists_cons_of_ne_nil nonempty
  rw [dropRows]

theorem dropRows_ne_nil (removed : α → Bool) (nonempty : rows ≠ []) :
    dropRows removed rows ≠ [] := by
  fun_induction dropRows removed rows with
  | case1 => exact absurd rfl nonempty
  | case2 row => exact List.cons_ne_nil _ _
  | case3 row next rest _ ih => exact ih (List.cons_ne_nil _ _)
  | case4 row next rest _ _ => exact List.cons_ne_nil _ _

theorem dropRows_of_none (kept : ∀ a ∈ rows.reduceOption, removed a = false) :
    dropRows removed rows = rows := by
  have keep {row : Option α} {rest : List (Option α)}
      (kept : ∀ a ∈ (row :: rest).reduceOption, removed a = false) : row.any removed = false := by
    cases row with
    | none => rfl
    | some a => exact kept a (by rw [List.reduceOption_cons_of_some]; exact List.mem_cons_self)
  have later {row : Option α} {rest : List (Option α)}
      (kept : ∀ a ∈ (row :: rest).reduceOption, removed a = false) :
      ∀ a ∈ rest.reduceOption, removed a = false := by
    intro a member
    refine kept a ?_
    cases row with
    | none => rwa [List.reduceOption_cons_of_none]
    | some b => rw [List.reduceOption_cons_of_some]; exact List.mem_cons_of_mem _ member
  fun_induction dropRows removed rows with
  | case1 => rfl
  | case2 row => rw [keep kept]; rfl
  | case3 row next rest found _ => rw [keep kept] at found; cases found
  | case4 row next rest _ ih => rw [ih (later kept)]

theorem dropRows_dropRows (first second : α → Bool) (rows : List (Option α)) :
    dropRows second (dropRows first rows) = dropRows (fun a => first a || second a) rows := by
  have either (row : Option α) :
      row.any (fun a => first a || second a) = (row.any first || row.any second) := by
    cases row <;> rfl
  fun_induction dropRows first rows with
  | case1 => rfl
  | case2 row =>
      rw [dropRows, dropRows, either]
      cases row.any first <;> rfl
  | case3 row next rest found ih => rw [ih, dropRows, either, found]; rfl
  | case4 row next rest kept ih =>
      rw [dropRows_cons _ _ (dropRows_ne_nil first (List.cons_ne_nil next rest)), ih, dropRows,
        either, Bool.eq_false_iff.2 kept, Bool.false_or]

theorem reduceOption_dropRows (removed : α → Bool) (rows : List (Option α)) :
    (dropRows removed rows).reduceOption = rows.reduceOption.filter fun a => !removed a := by
  fun_induction dropRows removed rows with
  | case1 => rfl
  | case2 row =>
      cases row with
      | none => rfl
      | some a => cases found : removed a <;> simp [found, List.reduceOption]
  | case3 row next rest found ih =>
      obtain ⟨a, rfl, isRemoved⟩ := (Option.any_eq_true _ _).1 found
      rw [ih, List.reduceOption_cons_of_some, List.filter_cons, isRemoved]
      rfl
  | case4 row next rest kept ih =>
      cases row with
      | none => rw [List.reduceOption_cons_of_none, List.reduceOption_cons_of_none, ih]
      | some a =>
          have isKept : removed a = false := Bool.eq_false_iff.2 kept
          rw [List.reduceOption_cons_of_some, List.reduceOption_cons_of_some, ih, List.filter_cons,
            isKept]
          rfl

/-- The rows that stay. -/
def keptRows (removed : α → Bool) (rows : List (Option α)) : List (Option α) :=
  rows.filter fun row => !row.any removed

theorem layOutFrom_dropRows (f : Option α → Option Text) (blank : f none = none)
    (state : Option Nat) (rows : List (Option α)) :
    layOutFrom state ((dropRows removed rows).map f) =
      layOutFrom state ((keptRows removed rows).map f) := by
  unfold keptRows
  fun_induction dropRows removed rows generalizing state with
  | case1 => rfl
  | case2 row =>
      cases found : row.any removed with
      | false => simp [found]
      | true => cases state <;> simp [found, blank, layOutFrom]
  | case3 row next rest found ih =>
      rw [ih, List.filter_cons (x := row), found]
      rfl
  | case4 row next rest kept ih =>
      rw [List.map_cons, List.filter_cons (x := row), Bool.eq_false_iff.2 kept]
      change layOutFrom state (f row :: _) = layOutFrom state (f row :: _)
      cases f row <;> cases state <;> simp only [layOutFrom, ih]

end Drop

section Search

variable {found? : Cursor → Option Found} {s : Text}

/-- A search that finds a whole text where it starts, if another text follows. -/
def Finds (found? : Cursor → Option Found) (s t : Text) : Prop :=
  s ≠ [] ∧ ∀ left, found? ⟨left, s ++ t⟩ = some ⟨s.length, s.length⟩

/-- A search that finds nothing inside of a text, if another text follows. -/
def Skips (found? : Cursor → Option Found) (s t : Text) : Prop :=
  ∀ left rest, rest ≠ [] → rest <:+ s → found? ⟨left, rest ++ t⟩ = none

theorem spansFrom_skip (found? : Cursor → Option Found) (left : Option Char) (position : Nat)
    (s t : Text) :
    spansFrom found? left position s.length (s ++ t) =
      spansFrom found? (s.getLast?.or left) (position + s.length) 0 t := by
  induction s generalizing left position with
  | nil => rfl
  | cons c rest ih =>
      rw [List.length_cons, List.cons_append, spansFrom, ih, Procedure.getLast?_cons_or,
        Nat.add_right_comm, ← Nat.add_assoc]

theorem spansFrom_of_skips {t : Text} (skips : Skips found? s t) (left : Option Char)
    (position : Nat) :
    spansFrom found? left position 0 (s ++ t) =
      spansFrom found? (s.getLast?.or left) (position + s.length) 0 t := by
  induction s generalizing left position with
  | nil => rfl
  | cons c rest ih =>
      have here := skips left (c :: rest) (List.cons_ne_nil _ _) List.suffix_rfl
      have later : Skips found? rest t := fun left' rest' nonempty behind =>
        skips left' rest' nonempty (behind.trans (List.suffix_cons c rest))
      rw [List.cons_append] at here ⊢
      rw [spansFrom, here]
      dsimp only
      rw [ih later, Procedure.getLast?_cons_or, List.length_cons, Nat.add_right_comm,
        ← Nat.add_assoc]

theorem spansFrom_of_finds {t : Text} (finds : Finds found? s t) (left : Option Char)
    (position : Nat) :
    spansFrom found? left position 0 (s ++ t) =
      ⟨position, position + s.length⟩ ::
        spansFrom found? (s.getLast?.or left) (position + s.length) 0 t := by
  obtain ⟨nonempty, found⟩ := finds
  have here := found left
  obtain ⟨c, rest, rfl⟩ := List.exists_cons_of_ne_nil nonempty
  rw [List.cons_append] at here ⊢
  rw [spansFrom, here]
  dsimp only
  rw [List.length_cons, Nat.add_sub_cancel, spansFrom_skip, Procedure.getLast?_cons_or,
    Nat.add_right_comm, ← Nat.add_assoc]

/-- A search in one row, after which the other rows are searched. -/
theorem spansFrom_row {row : Option α} {rest : List (Option α)}
    (finds : ∀ a ∈ row, removed a = true → Finds found? (text a) (behind (textRows text rest)))
    (skips : ∀ a ∈ row, removed a = false → Skips found? (text a) (behind (textRows text rest)))
    (later : ∀ left position, spansFrom found? left position 0 (behind (textRows text rest)) =
      rowSpans text removed (position + 1) rest)
    (left : Option Char) (position : Nat) :
    spansFrom found? left position 0 ((row.map text).getD [] ++ behind (textRows text rest)) =
      rowSpans text removed position (row :: rest) := by
  cases row with
  | none => exact later left position
  | some a =>
      rw [Option.map_some, Option.getD_some, rowSpans]
      cases isRemoved : removed a with
      | true =>
          rw [spansFrom_of_finds (finds a rfl isRemoved), later]
          rfl
      | false =>
          rw [spansFrom_of_skips (skips a rfl isRemoved), later]
          rfl

variable (visible : FindsVisible found?)
variable (finds : ∀ a after, some a :: after <:+ rows → removed a = true →
  Finds found? (text a) (behind (textRows text after)))
variable (skips : ∀ a after, some a :: after <:+ rows → removed a = false →
  Skips found? (text a) (behind (textRows text after)))
include visible finds skips

theorem spansFrom_behind (left : Option Char) (position : Nat) :
    spansFrom found? left position 0 (behind (textRows text rows)) =
      rowSpans text removed (position + 1) rows := by
  induction rows generalizing left position with
  | nil => rfl
  | cons row rest ih =>
      have feed : found? ⟨left, '\n' :: ((row.map text).getD [] ++ behind (textRows text rest))⟩ =
          none := by
        rw [Option.eq_none_iff_forall_ne_some]
        intro found hit
        exact absurd (visible _ _ _ _ hit).2 (by decide)
      change spansFrom found? left position 0
        ('\n' :: ((row.map text).getD [] ++ behind (textRows text rest))) = _
      rw [spansFrom, feed]
      refine spansFrom_row (fun a here => finds a rest (here ▸ List.suffix_rfl))
        (fun a here => skips a rest (here ▸ List.suffix_rfl)) (ih ?_ ?_) _ _
      · exact fun a after suffix => finds a after (suffix.trans (List.suffix_cons _ _))
      · exact fun a after suffix => skips a after (suffix.trans (List.suffix_cons _ _))

/-- A search that finds some of the rows and nothing in the others. -/
theorem spans_textRows :
    spans found? (ofRows (textRows text rows)) = rowSpans text removed 0 rows := by
  cases rows with
  | nil => rfl
  | cons row rest =>
      change spans found? (ofRows (row.map text :: textRows text rest)) = _
      rw [ofRows_cons, spans]
      refine spansFrom_row (fun a here => finds a rest (here ▸ List.suffix_rfl))
        (fun a here => skips a rest (here ▸ List.suffix_rfl))
        (spansFrom_behind visible ?_ ?_) _ _
      · exact fun a after suffix => finds a after (suffix.trans (List.suffix_cons _ _))
      · exact fun a after suffix => skips a after (suffix.trans (List.suffix_cons _ _))

end Search

section Cut

theorem le_start_of_mem_rowSpans {position : Nat} {span : Span}
    (member : span ∈ rowSpans text removed position rows) : position ≤ span.start := by
  fun_induction rowSpans text removed position rows with
  | case1 => cases member
  | case2 position rest ih => exact Nat.le_trans (Nat.le_succ _) (ih member)
  | case3 position a rest ih =>
      rcases List.mem_append.1 member with here | later
      · split at here
        · rw [List.mem_singleton.1 here]
        · cases here
      · have := ih later
        omega

theorem dropIndentEnd_append_feed (s t : Text) :
    dropIndentEnd (s ++ '\n' :: t) = s ++ '\n' :: dropIndentEnd t := by
  have stops (u v : Text) : (u ++ '\n' :: v).dropWhile Text.isIndent =
      u.dropWhile Text.isIndent ++ '\n' :: v := by
    induction u with
    | nil => rfl
    | cons c rest ih =>
        rw [List.cons_append, List.dropWhile_cons, List.dropWhile_cons, ih]
        split <;> rfl
  rw [dropIndentEnd, dropIndentEnd, List.reverse_append, List.reverse_cons, List.append_assoc]
  change ((t.reverse ++ '\n' :: s.reverse).dropWhile Text.isIndent).reverse = _
  rw [stops, List.reverse_append, List.reverse_cons, List.reverse_reverse, List.append_assoc]
  rfl

/-- Spans behind a line feed are cut out of what follows it. -/
theorem cutFrom_append_feed (left : Option Char) (position : Nat) (s t : Text)
    {spans : List Span} (ahead : ∀ span ∈ spans, position + s.length + 1 ≤ span.start)
    (ordered : ∀ span ∈ spans, span.start ≤ span.stop) :
    cutFrom left position (s ++ '\n' :: t) spans =
      s ++ '\n' :: cutFrom (some '\n') (position + s.length + 1) t spans := by
  cases spans with
  | nil => rw [cutFrom, cutFrom]
  | cons span more =>
      have start := ahead span List.mem_cons_self
      have stop := ordered span List.mem_cons_self
      have taken {n : Nat} (beyond : position + s.length + 1 ≤ n) :
          (s ++ '\n' :: t).take (n - position) =
            s ++ '\n' :: t.take (n - (position + s.length + 1)) := by
        obtain ⟨k, rfl⟩ := Nat.exists_eq_add_of_le beyond
        rw [show position + s.length + 1 + k - position = s.length + (k + 1) by omega,
          List.take_length_add_append, List.take_succ_cons, Nat.add_sub_cancel_left]
      have dropped {n : Nat} (beyond : position + s.length + 1 ≤ n) :
          (s ++ '\n' :: t).drop (n - position) = t.drop (n - (position + s.length + 1)) := by
        obtain ⟨k, rfl⟩ := Nat.exists_eq_add_of_le beyond
        rw [show position + s.length + 1 + k - position = s.length + (k + 1) by omega,
          List.drop_length_add_append, List.drop_succ_cons, Nat.add_sub_cancel_left]
      have lineStart (u : Text) : isLineStart left (s ++ '\n' :: u) = isLineStart (some '\n') u := by
        rw [isLineStart, isLineStart, List.getLast?_append, List.getLast?_cons]
        cases u.getLast? <;> rfl
      have before (u : Text) : (s ++ '\n' :: u).getLast?.or left = u.getLast?.or (some '\n') := by
        rw [List.getLast?_append, List.getLast?_cons]
        cases u.getLast? <;> rfl
      have ahead : ¬ span.start < position := by omega
      rw [cutFrom, cutFrom, if_neg ahead, if_neg (Nat.not_lt_of_le start)]
      dsimp only
      rw [taken start, taken (Nat.le_trans start stop), dropped (Nat.le_trans start stop),
        dropIndentEnd_append_feed, lineStart, before]
      split
      · rw [List.append_assoc, List.cons_append]
      · rw [List.append_assoc, List.cons_append]

theorem ordered_of_mem_rowSpans {position : Nat} {span : Span}
    (member : span ∈ rowSpans text removed position rows) : span.start ≤ span.stop := by
  fun_induction rowSpans text removed position rows with
  | case1 => cases member
  | case2 position rest ih => exact ih member
  | case3 position a rest ih =>
      rcases List.mem_append.1 member with here | later
      · split at here
        · rw [List.mem_singleton.1 here]
          exact Nat.le_add_right _ _
        · cases here
      · exact ih later

theorem ofRows_cons_of_ne_nil (row : Option Text) {texts : List (Option Text)}
    (nonempty : texts ≠ []) : ofRows (row :: texts) = row.getD [] ++ '\n' :: ofRows texts := by
  obtain ⟨next, rest, rfl⟩ := List.exists_cons_of_ne_nil nonempty
  exact Text.joinLines_cons_cons _ _ _

theorem ofRows_textRows_cons (row : Option α) (nonempty : rows ≠ []) :
    ofRows (textRows text (row :: rows)) =
      (row.map text).getD [] ++ '\n' :: ofRows (textRows text rows) :=
  ofRows_cons_of_ne_nil (row.map text) (mt List.map_eq_nil_iff.1 nonempty)

/-- Cutting a whole line takes its line feed along. -/
theorem cutFrom_line {left : Option Char} (starts : left.all (· == '\n') = true) (position : Nat)
    (s : Text) {t : Text} (ends : t = [] ∨ t.head? = some '\n') (more : List Span) :
    cutFrom left position (s ++ t) (⟨position, position + s.length⟩ :: more) =
      cutFrom (some '\n') (position + s.length + 1) (t.drop 1) more := by
  have next : t.dropWhile Text.isIndent = t ∧ t.takeWhile Text.isIndent = [] ∧
      (t.isEmpty || decide (t.head? = some '\n')) = true := by
    cases t with
    | nil => exact ⟨rfl, rfl, rfl⟩
    | cons c rest =>
        obtain rfl : c = '\n' := by simpa using ends
        exact ⟨rfl, rfl, rfl⟩
  rw [cutFrom, if_neg (Nat.lt_irrefl _)]
  dsimp only
  rw [Nat.sub_self, Nat.add_sub_cancel_left, List.take_zero, List.drop_left, next.1, next.2.1,
    next.2.2]
  have whole : isLineStart left (dropIndentEnd []) = true := starts
  rw [whole]
  rfl

theorem rowSpans_cons (position : Nat) (row : Option α) (rest : List (Option α)) :
    rowSpans text removed position (row :: rest) =
      (if row.any removed then [⟨position, position + ((row.map text).getD []).length⟩] else []) ++
        rowSpans text removed (position + ((row.map text).getD []).length + 1) rest := by
  cases row <;> rfl

theorem cutFrom_rowSpans {left : Option Char} (starts : left.all (· == '\n') = true)
    (position : Nat) (rows : List (Option α)) :
    cutFrom left position (ofRows (textRows text rows)) (rowSpans text removed position rows) =
      ofRows (textRows text (dropRows removed rows)) := by
  induction rows generalizing left position with
  | nil =>
      rw [rowSpans, cutFrom]
      rfl
  | cons row rest ih =>
      have later := @ih (some '\n') rfl (position + ((row.map text).getD []).length + 1)
      rw [rowSpans_cons]
      cases rest with
      | nil =>
          rw [rowSpans, List.append_nil, dropRows]
          split
          · have whole := cutFrom_line starts position ((row.map text).getD []) (t := [])
              (Or.inl rfl) []
            rw [List.append_nil] at whole
            exact whole.trans (by rw [List.drop_nil, cutFrom]; rfl)
          · rw [cutFrom]
      | cons next more =>
          have nonempty := List.cons_ne_nil next more
          rw [dropRows, ofRows_textRows_cons row nonempty]
          split
          · exact (cutFrom_line starts position _ (Or.inr rfl) _).trans later
          · rw [List.nil_append, cutFrom_append_feed left position _ _
              (fun span => le_start_of_mem_rowSpans) (fun span => ordered_of_mem_rowSpans), later,
              ofRows_textRows_cons row (dropRows_ne_nil removed nonempty)]

theorem cut_rowSpans (rows : List (Option α)) :
    cut (ofRows (textRows text rows)) (rowSpans text removed 0 rows) =
      ofRows (textRows text (dropRows removed rows)) := cutFrom_rowSpans rfl 0 rows

end Cut

section Lines

variable {line : Text} {lines others : List Text}

/-- The lines of rows. -/
def lineRows (text : α → Text) (rows : List (Option α)) : List Text :=
  rows.flatMap fun row => pieces ((row.map text).getD [])

theorem pieces_textRows (nonempty : rows ≠ []) :
    pieces (ofRows (textRows text rows)) = lineRows text rows := by
  induction rows with
  | nil => exact absurd rfl nonempty
  | cons row rest ih =>
      cases rest with
      | nil => exact (List.append_nil _).symm
      | cons next more =>
          have more := List.cons_ne_nil next more
          rw [ofRows_textRows_cons row more, Text.pieces_append_feed, ih more]
          rfl

theorem forall_mem_lineRows {P : Text → Prop} (blank : P [])
    (each : ∀ a ∈ rows.reduceOption, ∀ line ∈ pieces (text a), P line) :
    ∀ line ∈ lineRows text rows, P line := by
  intro line member
  obtain ⟨row, among, inside⟩ := List.mem_flatMap.1 member
  cases row with
  | none =>
      rw [Option.map_none, Option.getD_none, pieces, List.mem_singleton] at inside
      rwa [inside]
  | some a => exact each a (List.mem_filterMap.2 ⟨some a, among, rfl⟩) line inside

theorem removeTransactionLines_append (nonempty : lines ≠ []) (more : others ≠ [])
    (absent : ∀ line ∈ lines, transactionControl? line = none) :
    removeTransactionLines (lines ++ others) =
      joinLines lines ++ '\n' :: removeTransactionLines others := by
  induction lines with
  | nil => exact absurd rfl nonempty
  | cons line rest ih =>
      have keep {next : Text} {behind : List Text} :
          removeTransactionLines (line :: next :: behind) =
            line ++ '\n' :: removeTransactionLines (next :: behind) := by
        rw [removeTransactionLines, absent line List.mem_cons_self]
        exact List.append_assoc _ _ _
      cases rest with
      | nil =>
          obtain ⟨next, behind, rfl⟩ := List.exists_cons_of_ne_nil more
          exact keep
      | cons next behind =>
          have later := ih (List.cons_ne_nil _ _) fun other member =>
            absent other (List.mem_cons_of_mem _ member)
          rw [List.cons_append, List.cons_append, keep, ← List.cons_append, later,
            Text.joinLines_cons_cons, List.append_assoc]
          rfl

/-- A row that is one line which controls a transaction, or no line of which does. -/
def ControlsIf (text : Text) : Bool → Prop
  | true => ∃ line, pieces text = [line] ∧ (transactionControl? line).isSome = true
  | false => ∀ line ∈ pieces text, transactionControl? line = none

theorem lineRows_ne_nil (text : α → Text) (nonempty : rows ≠ []) : lineRows text rows ≠ [] := by
  rw [← pieces_textRows nonempty]
  exact Text.pieces_ne_nil _

theorem ControlsIf.remove_last {s : Text} {gone : Bool} (controls : ControlsIf s gone) :
    removeTransactionLines (pieces s) = if gone then [] else s := by
  cases gone with
  | true =>
      obtain ⟨line, split, control⟩ := controls
      rw [split, removeTransactionLines, if_pos control]
      rfl
  | false =>
      rw [removeTransactionLines_of_none controls, Text.joinLines_pieces]
      rfl

theorem ControlsIf.remove_append {s : Text} {gone : Bool} (controls : ControlsIf s gone)
    (more : others ≠ []) :
    removeTransactionLines (pieces s ++ others) =
      (if gone then [] else s ++ ['\n']) ++ removeTransactionLines others := by
  cases gone with
  | true =>
      obtain ⟨line, split, control⟩ := controls
      obtain ⟨next, behind, rfl⟩ := List.exists_cons_of_ne_nil more
      rw [split, List.singleton_append, removeTransactionLines, if_pos control]
      rfl
  | false =>
      rw [removeTransactionLines_append (Text.pieces_ne_nil s) more controls, Text.joinLines_pieces,
        if_neg Bool.false_ne_true, List.append_assoc]
      rfl

theorem removeTransactionLines_lineRows
    (controls : ∀ a ∈ rows.reduceOption, ControlsIf (text a) (removed a)) :
    removeTransactionLines (lineRows text rows) = ofRows (textRows text (dropRows removed rows)) := by
  induction rows with
  | nil => rfl
  | cons row rest ih =>
      have here : ControlsIf ((row.map text).getD []) (row.any removed) := by
        cases row with
        | none =>
            intro line member
            rw [Option.map_none, Option.getD_none, pieces, List.mem_singleton] at member
            rw [member]
            decide
        | some a =>
            exact controls a (by rw [List.reduceOption_cons_of_some]; exact List.mem_cons_self)
      have later := ih fun a member => controls a (by
        cases row with
        | none => rwa [List.reduceOption_cons_of_none]
        | some b => rw [List.reduceOption_cons_of_some]; exact List.mem_cons_of_mem _ member)
      change removeTransactionLines (pieces ((row.map text).getD []) ++ lineRows text rest) = _
      cases rest with
      | nil =>
          change removeTransactionLines (pieces _ ++ []) = _
          rw [List.append_nil, here.remove_last, dropRows]
          cases row.any removed <;> rfl
      | cons next more =>
          have nonempty := List.cons_ne_nil next more
          rw [here.remove_append (lineRows_ne_nil text nonempty), later, dropRows]
          cases row.any removed with
          | true => rfl
          | false =>
              exact (List.append_assoc _ _ _).trans
                (ofRows_textRows_cons row (dropRows_ne_nil removed nonempty)).symm

/-- Removing the lines that control transactions removes the rows that are such lines. -/
theorem removeTransactionLines_textRows
    (controls : ∀ a ∈ rows.reduceOption, ControlsIf (text a) (removed a)) :
    removeTransactionLines (pieces (ofRows (textRows text rows))) =
      ofRows (textRows text (dropRows removed rows)) := by
  cases rows with
  | nil => rfl
  | cons row rest =>
      rw [pieces_textRows (List.cons_ne_nil row rest), removeTransactionLines_lineRows controls]

theorem dropEmptyFrom_of_none (absent : ∀ line ∈ lines, isSeparator line = false) (filled : Bool) :
    dropEmptyFrom filled lines = lines := by
  induction lines generalizing filled with
  | nil => rfl
  | cons line rest ih =>
      rw [dropEmptyFrom, absent line List.mem_cons_self, if_neg Bool.false_ne_true,
        ih fun other member => absent other (List.mem_cons_of_mem _ member)]

theorem dropEmptyBatches_textRows
    (absent : ∀ a ∈ rows.reduceOption, ∀ line ∈ pieces (text a), isSeparator line = false) :
    dropEmptyBatches (ofRows (textRows text rows)) = ofRows (textRows text rows) := by
  cases rows with
  | nil => rfl
  | cons row rest =>
      rw [dropEmptyBatches, pieces_textRows (List.cons_ne_nil row rest), dropEmptyFrom_of_none
        (forall_mem_lineRows (by decide) absent), ← pieces_textRows (List.cons_ne_nil row rest),
        Text.joinLines_pieces]

end Lines

end MigrationSquash.Script
