import MigrationSquash.Proofs.Script.Patterns
import MigrationSquash.Proofs.Script.Rows

/-!
# Scripts that hold nothing to remove

Each pass over a script removes pieces that hold a character which is not blank, so a script
that comes out with all such characters went through every pass unchanged.  The passes look at
the text alone, also inside of literals.  Main statement: the texts of a script come out as
they are exactly if no pass finds anything in the raw script and no text holds a longer run of
blank lines.
-/

set_option autoImplicit false

namespace MigrationSquash.Script

open Text (AllBlank isBlank joinLines pieces trim)

/-- How many characters of a text are not blank. -/
def visibleCount (s : Text) : Nat := s.countP fun c => !isBlank c

section VisibleCount

variable {c : Char} {s t : Text}

@[simp] theorem visibleCount_nil : visibleCount [] = 0 := rfl

@[simp] theorem visibleCount_append : visibleCount (s ++ t) = visibleCount s + visibleCount t :=
  List.countP_append

@[simp] theorem visibleCount_feed : visibleCount ('\n' :: s) = visibleCount s := rfl

theorem visibleCount_of_visible (visible : isBlank c = false) :
    visibleCount (c :: s) = visibleCount s + 1 := by
  rw [visibleCount, List.countP_cons_of_pos (by rw [visible]; rfl)]
  rfl

theorem visibleCount_le_cons : visibleCount s ≤ visibleCount (c :: s) :=
  (List.sublist_cons_self c s).countP_le

theorem visibleCount_eq_zero_iff : visibleCount s = 0 ↔ AllBlank s := by
  rw [visibleCount, List.countP_eq_zero]
  simp [AllBlank]

theorem visibleCount_joinLines (lines : List Text) :
    visibleCount (joinLines lines) = visibleCount lines.flatten := by
  induction lines with
  | nil => rfl
  | cons line rest ih =>
      cases rest with
      | nil => rw [Text.joinLines_singleton, List.flatten_singleton]
      | cons next others =>
          rw [Text.joinLines_cons_cons, visibleCount_append, visibleCount_feed, ih,
            List.flatten_cons (l := line), visibleCount_append]

theorem visibleCount_trim_le (s : Text) : visibleCount (trim s) ≤ visibleCount s := by
  obtain ⟨front, back, split, -, -⟩ := Text.blanks_append_trim s
  have counts := congrArg visibleCount split
  rw [visibleCount_append, visibleCount_append] at counts
  omega

theorem visibleCount_collapseFrom_le (skip : Nat) (s : Text) :
    visibleCount (collapseFrom skip s) ≤ visibleCount s := by
  induction s generalizing skip with
  | nil => exact Nat.le_refl _
  | cons c rest ih =>
      cases skip with
      | succ skip => exact Nat.le_trans (ih skip) visibleCount_le_cons
      | zero =>
          rw [collapseFrom_cons]
          split
          · exact Nat.le_trans (ih _) visibleCount_le_cons
          · change visibleCount ([c] ++ collapseFrom 0 rest) ≤ visibleCount ([c] ++ rest)
            rw [visibleCount_append, visibleCount_append]
            exact Nat.add_le_add_left (ih 0) _

end VisibleCount

section Cut

variable {s : Text} {removed : List Span}

theorem visibleCount_dropIndentEnd_le (s : Text) :
    visibleCount (dropIndentEnd s) ≤ visibleCount s := by
  have shorter := (List.dropWhile_sublist (p := Text.isIndent) (l := s.reverse)).reverse
  rw [List.reverse_reverse] at shorter
  exact shorter.countP_le

/-- What stands before a part of a text, the part and what stands behind it. -/
theorem take_append_part_append_drop {start stop : Nat} (ordered : start ≤ stop) (s : Text) :
    s.take start ++ ((s.take stop).drop start ++ s.drop stop) = s := by
  have shorter : s.take start = (s.take stop).take start := by
    rw [List.take_take, Nat.min_eq_left ordered]
  rw [shorter, ← List.append_assoc, List.take_append_drop, List.take_append_drop]

/-- Cutting a span goes on behind it and keeps nothing of it. -/
theorem exists_cutFrom_cons (left : Option Char) {position : Nat} (s : Text) {span : Span}
    (more : List Span) (ahead : ¬ span.start < position) (ordered : span.start ≤ span.stop) :
    ∃ kept left' position' rest,
      cutFrom left position s (span :: more) = kept ++ cutFrom left' position' rest more ∧
        visibleCount kept + (visibleCount ((s.take (span.stop - position)).drop
          (span.start - position)) + visibleCount rest) ≤ visibleCount s := by
  have parts := take_append_part_append_drop (Nat.sub_le_sub_right ordered position) s
  have counts := congrArg visibleCount parts
  rw [visibleCount_append, visibleCount_append] at counts
  rw [cutFrom, if_neg ahead]
  dsimp only
  split
  · refine ⟨_, _, _, _, rfl, ?_⟩
    have front := visibleCount_dropIndentEnd_le (s.take (span.start - position))
    have back : visibleCount
        (((s.drop (span.stop - position)).dropWhile Text.isIndent).drop 1) ≤
        visibleCount (s.drop (span.stop - position)) :=
      ((List.drop_sublist 1 _).trans (List.dropWhile_sublist _)).countP_le
    omega
  · exact ⟨_, _, _, _, rfl, by omega⟩

theorem visibleCount_cutFrom_le (ordered : ∀ span ∈ removed, span.start ≤ span.stop)
    (left : Option Char) (position : Nat) (s : Text) :
    visibleCount (cutFrom left position s removed) ≤ visibleCount s := by
  induction removed generalizing left position s with
  | nil => exact Nat.le_of_eq (by rw [cutFrom])
  | cons span more ih =>
      have later := ih fun other member => ordered other (List.mem_cons_of_mem _ member)
      by_cases passed : span.start < position
      · rw [cutFrom, if_pos passed]
        exact later left position s
      · obtain ⟨kept, left', position', rest, result, counts⟩ :=
          exists_cutFrom_cons left s more passed (ordered span List.mem_cons_self)
        have onward := later left' position' rest
        rw [result, visibleCount_append]
        omega

/-- A span that holds a character which is not blank. -/
def Span.Shows (span : Span) (s : Text) : Prop :=
  span.start ≤ span.stop ∧ 0 < visibleCount (span.text s)

/-- Removing spans removes characters that are not blank. -/
theorem visibleCount_cut_lt (shows : ∀ span ∈ removed, span.Shows s) (nonempty : removed ≠ []) :
    visibleCount (cut s removed) < visibleCount s := by
  obtain ⟨span, more, rfl⟩ := List.exists_cons_of_ne_nil nonempty
  obtain ⟨ordered, positive⟩ := shows span List.mem_cons_self
  obtain ⟨kept, left, position, rest, result, counts⟩ :=
    exists_cutFrom_cons none s more (Nat.not_lt_zero span.start) ordered
  have later := visibleCount_cutFrom_le
    (fun other member => (shows other (List.mem_cons_of_mem _ member)).1) left position rest
  rw [Span.text] at positive
  rw [Nat.sub_zero, Nat.sub_zero] at counts
  rw [cut, result, visibleCount_append]
  omega

theorem visibleCount_cut_le (shows : ∀ span ∈ removed, span.Shows s) :
    visibleCount (cut s removed) ≤ visibleCount s :=
  visibleCount_cutFrom_le (fun span member => (shows span member).1) none 0 s

theorem cut_nil (s : Text) : cut s [] = s := by rw [cut, cutFrom]

end Cut

section Finders

open Pattern

variable {found? : Cursor → Option Found} {pattern : Pattern} {table s : Text}

theorem exists_of_mem_spansFrom {left : Option Char} {position skip : Nat} {span : Span}
    (member : span ∈ spansFrom found? left position skip s) :
    ∃ before c rest left' found, s = before ++ c :: rest ∧ found? ⟨left', c :: rest⟩ = some found ∧
      span = ⟨position + before.length, position + before.length + found.length⟩ := by
  induction s generalizing left position skip with
  | nil => cases member
  | cons c rest ih =>
      have later {skip : Nat} (member : span ∈ spansFrom found? (some c) (position + 1) skip rest) :
          ∃ before d more left' found, c :: rest = before ++ d :: more ∧
            found? ⟨left', d :: more⟩ = some found ∧
            span = ⟨position + before.length, position + before.length + found.length⟩ := by
        obtain ⟨before, d, more, left', found, split, hit, rfl⟩ := ih member
        refine ⟨c :: before, d, more, left', found, by rw [split]; rfl, hit, ?_⟩
        rw [List.length_cons, Nat.add_assoc, Nat.add_comm 1]
      cases skip with
      | succ skip => exact later member
      | zero =>
          rw [spansFrom] at member
          split at member
          · rename_i found hit
            rcases List.mem_cons.1 member with rfl | further
            · exact ⟨[], c, rest, left, found, rfl, hit, rfl⟩
            · exact later further
          · exact later member

/-- A search whose finds start with a character that is not blank. -/
def FindsVisible (found? : Cursor → Option Found) : Prop :=
  ∀ left c rest found, found? ⟨left, c :: rest⟩ = some found →
    0 < found.length ∧ isBlank c = false

theorem FindsVisible.shows (visible : FindsVisible found?) {span : Span}
    (member : span ∈ spans found? s) : span.Shows s := by
  obtain ⟨before, c, rest, left, found, rfl, hit, rfl⟩ := exists_of_mem_spansFrom member
  obtain ⟨positive, first⟩ := visible left c rest found hit
  refine ⟨Nat.le_add_right _ _, ?_⟩
  obtain ⟨length, same⟩ := Nat.exists_eq_succ_of_ne_zero (Nat.ne_of_gt positive)
  rw [Span.text, Nat.zero_add, List.take_length_add_append, List.drop_left, same,
    List.take_succ_cons, visibleCount_of_visible first]
  omega

theorem findsVisible_occurrences (opens : Opens pattern) :
    FindsVisible fun cursor => (pattern.length? cursor).map fun length => ⟨length, length⟩ := by
  intro left c rest found hit
  obtain ⟨length, read, rfl⟩ := Option.map_eq_some_iff.1 hit
  obtain ⟨positive, d, more, split, visible⟩ := opens.of_length?_eq_some read
  obtain ⟨rfl, -⟩ := List.cons.inj split
  exact ⟨positive, visible⟩

theorem statementLength_pos (c : Char) (rest : Text) : 0 < statementLength 0 none (c :: rest) := by
  rw [statementLength]
  repeat' split
  all_goals omega

theorem findsVisible_statements (opens : Opens pattern) :
    FindsVisible fun cursor => (pattern.length? cursor).map fun length =>
      let whole := statementLength 0 none cursor.rest
      ⟨whole, max whole length⟩ := by
  intro left c rest found hit
  obtain ⟨length, read, rfl⟩ := Option.map_eq_some_iff.1 hit
  obtain ⟨-, d, more, split, visible⟩ := opens.of_length?_eq_some read
  obtain ⟨rfl, -⟩ := List.cons.inj split
  exact ⟨statementLength_pos _ _, visible⟩

theorem advances_blanks : Advances blanks := advances_run _

theorem advances_someBlanks : Advances someBlanks := advances_someRun _

theorem advances_optional (advances : Advances pattern) : Advances (optional pattern) := by
  refine advances_choice ?_
  rintro _ (_ | ⟨_, _ | ⟨_, ⟨⟩⟩⟩)
  · exact advances
  · exact advances_sequence nofun

theorem advances_phrase (words : List Text) : Advances (phrase words) := by
  induction words with
  | nil => exact advances_sequence nofun
  | cons w rest ih =>
      cases rest with
      | nil => exact advances_word w
      | cons next others =>
          refine advances_sequence ?_
          simp only [List.forall_mem_cons]
          exact ⟨advances_word w, advances_someBlanks, ih, nofun⟩

theorem opens_phrase {c : Char} (visible : isBlank c = false) (w : Text) (rest : List Text) :
    Opens (phrase ((c :: w) :: rest)) := by
  cases rest with
  | nil => exact opens_word visible w
  | cons next others =>
      refine opens_sequence (opens_word visible w) ?_
      simp only [List.forall_mem_cons]
      exact ⟨advances_someBlanks, advances_phrase _, nofun⟩

theorem advances_qualified (table : Text) : Advances (qualified table) := by
  have enclosed {inside : Pattern} (advances : Advances inside) (first last : Text) :
      Advances (sequence [word first, inside, word last]) := by
    refine advances_sequence ?_
    simp only [List.forall_mem_cons]
    exact ⟨advances_word _, advances, advances_word _, nofun⟩
  refine advances_sequence ?_
  simp only [List.forall_mem_cons]
  refine ⟨advances_optional (advances_sequence ?_), advances_choice ?_, nofun⟩
  · simp only [List.forall_mem_cons]
    refine ⟨advances_choice ?_, advances_blanks, advances_word _, advances_blanks, nofun⟩
    simp only [List.forall_mem_cons]
    exact ⟨enclosed (advances_someRun _) _ _, enclosed (advances_someRun _) _ _,
      advances_someRun _, nofun⟩
  · simp only [List.forall_mem_cons]
    refine ⟨enclosed (advances_word _) _ _, enclosed (advances_word _) _ _,
      advances_sequence ?_, nofun⟩
    simp only [List.forall_mem_cons]
    exact ⟨advances_boundary, advances_word _, advances_boundary, nofun⟩

theorem opens_preamble : Opens preamble := by
  refine opens_sequence (opens_word (by decide) _) ?_
  simp only [List.forall_mem_cons]
  refine ⟨advances_someBlanks, advances_word _, advances_through (advances_sequence ?_), nofun⟩
  simp only [List.forall_mem_cons]
  exact ⟨advances_word _, advances_someBlanks, advances_word _, advances_blanks, advances_word _,
    nofun⟩

theorem opens_guardedCreate (table : Text) : Opens (guardedCreate table) := by
  refine opens_sequence (opens_phrase (by decide) _ _) ?_
  simp only [List.forall_mem_cons]
  refine ⟨advances_blanks, advances_word _, advances_blanks, advances_optional (advances_word _),
    advances_word _, advances_run _, advances_word _, advances_wholeRun _, advances_word _,
    advances_blanks, advances_word _, advances_someBlanks, advances_phrase _, advances_boundary,
    advances_through (advances_sequence ?_), nofun⟩
  simp only [List.forall_mem_cons]
  exact ⟨advances_boundary, advances_word _, advances_blanks, advances_word _, nofun⟩

theorem opens_createTable (table : Text) : Opens (createTable table) := by
  refine opens_sequence (opens_phrase (by decide) _ _) ?_
  simp only [List.forall_mem_cons]
  refine ⟨advances_someBlanks, advances_optional (advances_sequence ?_), advances_qualified table,
    advances_blanks, advances_word _, nofun⟩
  simp only [List.forall_mem_cons]
  exact ⟨advances_phrase _, advances_someBlanks, nofun⟩

theorem opens_historyRows (table : Text) : Opens (historyRows table) := by
  refine opens_sequence (opens_choice ?_) ?_
  · simp only [List.forall_mem_cons]
    exact ⟨opens_phrase (by decide) _ _, opens_phrase (by decide) _ _, nofun⟩
  · simp only [List.forall_mem_cons]
    exact ⟨advances_someBlanks, advances_qualified table, nofun⟩

end Finders

section Lines

variable {line : Text} {lines : List Text}

theorem afterFolded?_of_blank {c d : Char} {beginning rest : Text} (blank : isBlank d = true)
    (visible : isBlank c = false) : Text.afterFolded? (c :: beginning) (d :: rest) = none := by
  rw [Text.afterFolded?, if_neg]
  intro same
  rw [Text.isBlank_eq_of_foldCase_eq same, blank] at visible
  cases visible

theorem transactionControl?_of_allBlank (blank : AllBlank line) :
    transactionControl? line = none := by
  have absent {c : Char} (visible : isBlank c = false) (beginning : Text) :
      Text.afterFolded? (c :: beginning) (skipIndent line) = none := by
    cases split : skipIndent line with
    | nil => rfl
    | cons d rest =>
        refine afterFolded?_of_blank (blank d ?_) visible
        exact (List.dropWhile_sublist _).subset (split ▸ List.mem_cons_self)
  have begins := absent (c := 'B') (by decide) "EGIN".toList
  have starts := absent (c := 'S') (by decide) "TART".toList
  have commits := absent (c := 'C') (by decide) "OMMIT".toList
  rw [transactionControl?]
  rw [afterWords?, afterWords?, show "BEGIN".toList = 'B' :: "EGIN".toList from rfl,
    show "START".toList = 'S' :: "TART".toList from rfl,
    show "COMMIT".toList = 'C' :: "OMMIT".toList from rfl, begins, starts, commits]
  rfl

theorem visibleCount_pos_of_control (control : (transactionControl? line).isSome = true) :
    0 < visibleCount line := by
  refine Nat.pos_of_ne_zero fun zero => ?_
  rw [transactionControl?_of_allBlank (visibleCount_eq_zero_iff.1 zero)] at control
  cases control

theorem removeTransactionLines_of_none (absent : ∀ line ∈ lines, transactionControl? line = none) :
    removeTransactionLines lines = joinLines lines := by
  fun_induction removeTransactionLines lines with
  | case1 => rfl
  | case2 last control => rw [absent last List.mem_cons_self] at control; cases control
  | case3 last => rfl
  | case4 line next rest ih =>
      rw [ih fun other member => absent other (List.mem_cons_of_mem _ member),
        absent line List.mem_cons_self, Text.joinLines_cons_cons]
      exact List.append_assoc _ _ _

/-- Removing the lines that control transactions removes nothing that is visible only where
there is no such line. -/
theorem visibleCount_removeTransactionLines (lines : List Text) :
    visibleCount (removeTransactionLines lines) ≤ visibleCount (joinLines lines) ∧
      (visibleCount (joinLines lines) ≤ visibleCount (removeTransactionLines lines) →
        ∀ line ∈ lines, transactionControl? line = none) := by
  fun_induction removeTransactionLines lines with
  | case1 => exact ⟨Nat.le_refl _, nofun⟩
  | case2 last control =>
      have positive := visibleCount_pos_of_control control
      refine ⟨Nat.zero_le _, fun same => ?_⟩
      rw [Text.joinLines_singleton, visibleCount_nil] at same
      omega
  | case3 last noControl =>
      refine ⟨Nat.le_refl _, fun _ line member => ?_⟩
      rw [List.mem_singleton.1 member]
      simpa using noControl
  | case4 line next rest ih =>
      rw [visibleCount_append, Text.joinLines_cons_cons, visibleCount_append, visibleCount_feed]
      by_cases control : (transactionControl? line).isSome = true
      · have positive := visibleCount_pos_of_control control
        rw [if_pos control, visibleCount_nil]
        exact ⟨by omega, fun same => absurd same (by omega)⟩
      · rw [if_neg control, visibleCount_append, show visibleCount ['\n'] = 0 from rfl]
        refine ⟨by omega, fun same other member => ?_⟩
        rcases List.mem_cons.1 member with rfl | later
        · simpa using control
        · exact ih.2 (by omega) other later

theorem visibleCount_pos_of_isSeparator (separates : isSeparator line = true) :
    0 < visibleCount line := by
  refine Nat.pos_of_ne_zero fun zero => ?_
  rw [isSeparator, Text.trim_of_allBlank (visibleCount_eq_zero_iff.1 zero)] at separates
  exact absurd separates (by decide)

theorem visibleCount_dropEmptyFrom (filled : Bool) (lines : List Text) :
    visibleCount (dropEmptyFrom filled lines).flatten ≤ visibleCount lines.flatten ∧
      (visibleCount lines.flatten ≤ visibleCount (dropEmptyFrom filled lines).flatten →
        dropEmptyFrom filled lines = lines) := by
  induction lines generalizing filled with
  | nil => exact ⟨Nat.le_refl _, fun _ => rfl⟩
  | cons line rest ih =>
      rw [dropEmptyFrom, List.flatten_cons, visibleCount_append]
      split
      · rename_i separates
        have positive := visibleCount_pos_of_isSeparator separates
        have later := ih false
        cases filled with
        | false =>
            change visibleCount (dropEmptyFrom false rest).flatten ≤ _ ∧
              (_ ≤ visibleCount (dropEmptyFrom false rest).flatten → _)
            exact ⟨by omega, fun same => absurd same (by omega)⟩
        | true =>
            change visibleCount (line ++ (dropEmptyFrom false rest).flatten) ≤ _ ∧
              (_ ≤ visibleCount (line ++ (dropEmptyFrom false rest).flatten) →
                line :: dropEmptyFrom false rest = line :: rest)
            rw [visibleCount_append]
            exact ⟨by omega, fun same => congrArg (line :: ·) (later.2 (by omega))⟩
      · rw [List.flatten_cons, visibleCount_append]
        have later := ih (filled || !Text.isBlankText line)
        exact ⟨by omega, fun same => congrArg (line :: ·) (later.2 (by omega))⟩

theorem transactionsFrom_of_none (absent : ∀ line ∈ lines, transactionControl? line = none)
    (total position : Nat) : transactionsFrom total none position lines = [] := by
  induction lines generalizing position with
  | nil => rfl
  | cons line rest ih =>
      simp only [transactionsFrom, absent line List.mem_cons_self]
      exact ih (fun other member => absent other (List.mem_cons_of_mem _ member)) _

end Lines

/-- A pass over scripts that either finds nothing and leaves the script as it is, or removes a
character that is not blank. -/
structure Removes (pass : Text → Text) (idle : Text → Prop) : Prop where
  visible_le : ∀ s, visibleCount (pass s) ≤ visibleCount s
  idle_of_le : ∀ s, visibleCount s ≤ visibleCount (pass s) → idle s
  eq_of_idle : ∀ s, idle s → pass s = s

namespace Removes

variable {first second : Text → Text} {idle later : Text → Prop}

theorem comp (firstRemoves : Removes first idle) (secondRemoves : Removes second later) :
    Removes (fun s => second (first s)) fun s => idle s ∧ later s where
  visible_le s := Nat.le_trans (secondRemoves.visible_le (first s)) (firstRemoves.visible_le s)
  idle_of_le s kept := by
    have firstIdle := firstRemoves.idle_of_le s (Nat.le_trans kept (secondRemoves.visible_le _))
    rw [firstRemoves.eq_of_idle s firstIdle] at kept
    exact ⟨firstIdle, secondRemoves.idle_of_le s kept⟩
  eq_of_idle s both := by rw [firstRemoves.eq_of_idle s both.1, secondRemoves.eq_of_idle s both.2]

theorem cut {removed : Text → List Span} (shows : ∀ s, ∀ span ∈ removed s, span.Shows s) :
    Removes (fun s => cut s (removed s)) fun s => removed s = [] where
  visible_le s := visibleCount_cut_le (shows s)
  idle_of_le s kept := by
    by_contra nonempty
    have less := visibleCount_cut_lt (shows s) nonempty
    omega
  eq_of_idle s nothing := by rw [nothing, cut_nil]

theorem transactionLines :
    Removes (fun s => removeTransactionLines (pieces s))
      fun s => ∀ line ∈ pieces s, transactionControl? line = none where
  visible_le s := by
    have le := (visibleCount_removeTransactionLines (pieces s)).1
    rwa [Text.joinLines_pieces] at le
  idle_of_le s kept := by
    refine (visibleCount_removeTransactionLines (pieces s)).2 ?_
    rwa [Text.joinLines_pieces]
  eq_of_idle s absent := by rw [removeTransactionLines_of_none absent, Text.joinLines_pieces]

theorem emptyBatches :
    Removes dropEmptyBatches fun s => dropEmptyFrom false (pieces s) = pieces s where
  visible_le s := by
    have le := (visibleCount_dropEmptyFrom false (pieces s)).1
    rwa [← visibleCount_joinLines, ← visibleCount_joinLines, Text.joinLines_pieces] at le
  idle_of_le s kept := by
    refine (visibleCount_dropEmptyFrom false (pieces s)).2 ?_
    rwa [← visibleCount_joinLines, ← visibleCount_joinLines, Text.joinLines_pieces]
  eq_of_idle s same := by rw [dropEmptyBatches, same, Text.joinLines_pieces]

end Removes

/-- A script in which no pass finds anything: no preamble, nothing that is done with the history
table, no line that controls a transaction and no separator behind an empty batch. -/
structure Inert (table s : Text) : Prop where
  preambles : ∀ span ∈ occurrences preamble s,
    Text.containsIgnoringCase (span.text s) "pg_namespace".toList = false
  guarded : occurrences (guardedCreate table) s = []
  created : statements (createTable table) s = []
  rows : statements (historyRows table) s = []
  control : ∀ line ∈ pieces s, transactionControl? line = none
  batches : dropEmptyFrom false (pieces s) = pieces s

theorem inert_iff {table s : Text} :
    Inert table s ↔
      (∀ span ∈ occurrences preamble s,
        Text.containsIgnoringCase (span.text s) "pg_namespace".toList = false) ∧
      occurrences (guardedCreate table) s = [] ∧ statements (createTable table) s = [] ∧
      statements (historyRows table) s = [] ∧
      (∀ line ∈ pieces s, transactionControl? line = none) ∧
      dropEmptyFrom false (pieces s) = pieces s :=
  ⟨fun inert => ⟨inert.preambles, inert.guarded, inert.created, inert.rows, inert.control,
    inert.batches⟩, fun all => ⟨all.1, all.2.1, all.2.2.1, all.2.2.2.1, all.2.2.2.2.1, all.2.2.2.2.2⟩⟩

instance (table s : Text) : Decidable (Inert table s) := decidable_of_iff _ inert_iff.symm

/-- What is left of a script when its blanks are not looked at yet. -/
def strip (table s : Text) : Text :=
  let s := removePreambles s
  let s := cut s (occurrences (guardedCreate table) s)
  let s := cut s (statements (createTable table) s)
  let s := cut s (statements (historyRows table) s)
  dropEmptyBatches (removeTransactionLines (pieces s))

/-- The preambles that stand outside of transactions. -/
def outerPreambles (s : Text) : List Span :=
  (occurrences preamble s).filter fun span =>
    Text.containsIgnoringCase (span.text s) "pg_namespace".toList &&
      !(transactions s).any span.isWithin

theorem removes_outerPreambles : Removes removePreambles fun s => outerPreambles s = [] :=
  Removes.cut fun _ _ member =>
    (findsVisible_occurrences opens_preamble).shows (List.mem_filter.1 member).1

theorem outerPreambles_eq_nil_iff {s : Text}
    (control : ∀ line ∈ pieces s, transactionControl? line = none) :
    outerPreambles s = [] ↔ ∀ span ∈ occurrences preamble s,
      Text.containsIgnoringCase (span.text s) "pg_namespace".toList = false := by
  rw [outerPreambles, transactions, transactionsFrom_of_none control, List.filter_eq_nil_iff]
  simp

theorem sanitize_eq (table raw : Text) :
    sanitize table raw =
      trim (collapseFrom 0 (strip table (Text.replaceAll ['\r', '\n'] ['\n'] raw))) := rfl

theorem removes_strip (table : Text) : Removes (strip table) (Inert table) := by
  have guarded := Removes.cut fun s _ =>
    (findsVisible_occurrences (opens_guardedCreate table)).shows (s := s)
  have created := Removes.cut fun s _ =>
    (findsVisible_statements (opens_createTable table)).shows (s := s)
  have rows := Removes.cut fun s _ =>
    (findsVisible_statements (opens_historyRows table)).shows (s := s)
  have all := removes_outerPreambles.comp (guarded.comp (created.comp (rows.comp
    (Removes.transactionLines.comp Removes.emptyBatches))))
  refine ⟨all.visible_le, fun s kept => ?_, fun s inert => all.eq_of_idle s ?_⟩
  · obtain ⟨preambles, guarded, created, rows, control, batches⟩ := all.idle_of_le s kept
    exact ⟨(outerPreambles_eq_nil_iff control).1 preambles, guarded, created, rows, control, batches⟩
  · exact ⟨(outerPreambles_eq_nil_iff inert.control).2 inert.preambles, inert.guarded,
      inert.created, inert.rows, inert.control, inert.batches⟩

theorem replaceAll_returns {s : Text} (unix : ¬ ['\r', '\n'] <:+: s) :
    Text.replaceAll ['\r', '\n'] ['\n'] s = s := by
  unfold Text.replaceAll
  induction s with
  | nil => rfl
  | cons c rest ih =>
      have starts : Text.startsWith ['\r', '\n'] (c :: rest) = false := by
        rw [Bool.eq_false_iff]
        intro starts
        obtain ⟨tail, split⟩ := Text.startsWith_iff.1 starts
        exact unix ⟨[], tail, split.symm⟩
      rw [Text.replaceFrom, starts, if_neg (by decide), ih]
      exact fun found => unix (found.trans (List.suffix_cons c rest).isInfix)

variable {table : Text} {rows : List (Option Text)}

theorem visibleCount_behind (rows : List (Option Text)) :
    visibleCount (behind rows) = visibleCount (rows.flatMap (·.getD [])) := by
  induction rows with
  | nil => rfl
  | cons row rest ih =>
      rw [List.flatMap_cons, visibleCount_append, ← ih, ← visibleCount_append]
      rfl

theorem visibleCount_layOutFrom (state : Option Nat) (rows : List (Option Text)) :
    visibleCount (layOutFrom state rows) = visibleCount (rows.flatMap (·.getD [])) := by
  have feeds (count : Nat) : visibleCount (List.replicate count '\n') = 0 :=
    visibleCount_eq_zero_iff.2 (allBlank_feeds count)
  induction rows generalizing state with
  | nil => cases state <;> rfl
  | cons row rest ih =>
      rw [List.flatMap_cons, visibleCount_append]
      cases row with
      | none =>
          rw [Option.getD_none, visibleCount_nil, Nat.zero_add]
          cases state with
          | none => exact ih none
          | some blank => exact ih (some (blank + 1))
      | some s =>
          cases state with
          | none => rw [layOutFrom, visibleCount_append, ih, Option.getD_some]
          | some blank =>
              rw [layOutFrom, visibleCount_append, visibleCount_append, feeds, ih, Option.getD_some,
                Nat.zero_add]

theorem visibleCount_layOut (rows : List (Option Text)) :
    visibleCount (layOut rows) = visibleCount (ofRows rows) := by
  rw [layOut, visibleCount_layOutFrom]
  cases rows with
  | nil => rfl
  | cons row rest =>
      rw [ofRows_cons, visibleCount_append, visibleCount_behind, List.flatMap_cons,
        visibleCount_append]

/-- Shortening the runs in the texts of the rows shortens what is laid out. -/
theorem length_layOutFrom_collapse (state : Option Nat) (rows : List (Option Text)) :
    (layOutFrom state (collapseRows rows)).length ≤ (layOutFrom state rows).length ∧
      ((layOutFrom state rows).length ≤ (layOutFrom state (collapseRows rows)).length →
        ∀ s, some s ∈ rows → s.length ≤ (collapseFrom 0 s).length) := by
  induction rows generalizing state with
  | nil => exact ⟨Nat.le_refl _, nofun⟩
  | cons row rest ih =>
      cases row with
      | none =>
          have drop {P : Text → Prop} (all : ∀ s, some s ∈ rest → P s) :
              ∀ s, some s ∈ none :: rest → P s := fun s member =>
            all s ((List.mem_cons.1 member).resolve_left nofun)
          cases state with
          | none => exact ⟨(ih none).1, fun same => drop ((ih none).2 same)⟩
          | some blank =>
              exact ⟨(ih (some (blank + 1))).1, fun same => drop ((ih (some (blank + 1))).2 same)⟩
      | some s =>
          have shorter := length_collapseFrom_le 0 s
          obtain ⟨le, same⟩ := ih (some 0)
          have both (lengths : s.length + (layOutFrom (some 0) rest).length ≤
              (collapseFrom 0 s).length + (layOutFrom (some 0) (collapseRows rest)).length) :
              ∀ t, some t ∈ some s :: rest → t.length ≤ (collapseFrom 0 t).length := by
            intro t member
            rcases List.mem_cons.1 member with first | later
            · obtain rfl := Option.some.inj first
              omega
            · exact same (by omega) t later
          cases state with
          | none =>
              change (collapseFrom 0 s ++ layOutFrom (some 0) (collapseRows rest)).length ≤
                (s ++ layOutFrom (some 0) rest).length ∧ ((s ++ layOutFrom (some 0) rest).length ≤
                  (collapseFrom 0 s ++ layOutFrom (some 0) (collapseRows rest)).length → _)
              simp only [List.length_append]
              exact ⟨by omega, both⟩
          | some blank =>
              change (List.replicate (min blank 2 + 1) '\n' ++ (collapseFrom 0 s ++
                layOutFrom (some 0) (collapseRows rest))).length ≤ (List.replicate (min blank 2 + 1)
                  '\n' ++ (s ++ layOutFrom (some 0) rest)).length ∧
                ((List.replicate (min blank 2 + 1) '\n' ++
                  (s ++ layOutFrom (some 0) rest)).length ≤ (List.replicate (min blank 2 + 1) '\n' ++
                    (collapseFrom 0 s ++ layOutFrom (some 0) (collapseRows rest))).length → _)
              simp only [List.length_append]
              exact ⟨by omega, fun lengths => both (by omega)⟩

theorem layOut_collapse_eq_iff :
    layOut (collapseRows rows) = layOut rows ↔ ∀ s, some s ∈ rows → NoGap s := by
  constructor
  · intro same s member
    exact noGap_of_length_le ((length_layOutFrom_collapse none rows).2
      (Nat.le_of_eq (congrArg List.length same.symm)) s member)
  · intro noGap
    have same : collapseRows rows = rows := by
      refine (List.map_congr_left fun row member => ?_).trans (List.map_id rows)
      cases row with
      | none => rfl
      | some s => exact congrArg some (collapseFrom_of_noGap (noGap s member))
    rw [same]

/-- The texts of a script come out as they are, and in their order, exactly if nothing is found
in the script and no text has a run of more than two blank lines. -/
theorem sanitize_eq_layOut_iff (trimmed : AllTrimmed rows)
    (unix : ¬ ['\r', '\n'] <:+: ofRows rows) :
    sanitize table (ofRows rows) = layOut rows ↔
      Inert table (ofRows rows) ∧ ∀ s, some s ∈ rows → NoGap s := by
  have removes := removes_strip table
  have result : sanitize table (ofRows rows) =
      trim (collapseFrom 0 (strip table (ofRows rows))) := by
    rw [sanitize_eq, replaceAll_returns unix]
  have inertResult (inert : Inert table (ofRows rows)) :
      sanitize table (ofRows rows) = layOut (collapseRows rows) := by
    rw [result, removes.eq_of_idle _ inert, trim_collapse_ofRows trimmed]
  constructor
  · intro kept
    have inert : Inert table (ofRows rows) := by
      refine removes.idle_of_le _ ?_
      calc visibleCount (ofRows rows)
          = visibleCount (trim (collapseFrom 0 (strip table (ofRows rows)))) := by
            rw [← visibleCount_layOut, ← kept, result]
        _ ≤ visibleCount (collapseFrom 0 (strip table (ofRows rows))) := visibleCount_trim_le _
        _ ≤ visibleCount (strip table (ofRows rows)) := visibleCount_collapseFrom_le 0 _
    exact ⟨inert, layOut_collapse_eq_iff.1 ((inertResult inert).symm.trans kept)⟩
  · rintro ⟨inert, noGap⟩
    rw [inertResult inert, layOut_collapse_eq_iff.2 noGap]

namespace Sample

/-- Two statements, one of which names the history table in a comment and in a literal. -/
def ownRows : List (Option Text) := [
  none,
  some "-- __EFMigrationsHistory\nUPDATE \"t\"\nSET x = 'COMMIT';".toList,
  none,
  none,
  none,
  some "SELECT 'DELETE __EFMigrationsHistory';".toList,
  none]

/-- A literal with a line that would end a transaction. -/
def noteLiteral : Text := "'first\nCOMMIT;\nlast'".toList

/-- A statement that writes the literal to a table. -/
def note : Text := "INSERT INTO \"Notes\" VALUES (".toList ++ noteLiteral ++ ");".toList

/-- What is left of the script with the statements. -/
def ownText : Text :=
  "-- __EFMigrationsHistory\nUPDATE \"t\"\nSET x = 'COMMIT';\n\n\n".toList ++
    "SELECT 'DELETE __EFMigrationsHistory';".toList

end Sample

/-- Statements come out with two blank lines between them. -/
theorem sanitize_eq_layOut_sample :
    sanitize defaultHistoryTable (ofRows Sample.ownRows) = Sample.ownText := by
  have laidOut : layOut Sample.ownRows = Sample.ownText := by decide
  rw [← laidOut]
  exact (sanitize_eq_layOut_iff (forall_some_mem_iff.2 (by decide)) (by decide +kernel)).2
    ⟨by decide +kernel, forall_some_mem_iff.2 (by decide +kernel)⟩

/-- A line of a literal is removed from a statement. -/
theorem line_of_literal_removed :
    ¬ Sample.noteLiteral <:+: sanitize defaultHistoryTable (ofRows [some Sample.note]) := by
  decide +kernel

end MigrationSquash.Script
