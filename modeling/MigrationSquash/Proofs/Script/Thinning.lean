import MigrationSquash.Proofs.Script.BlankRuns
import MigrationSquash.Proofs.Script.Passes

/-!
# What sanitizing takes away

Each pass over a script names the spans that it removes, in the text that it gets.  Main statements:
what a pass leaves is its text less blanks and less characters in these spans, so the sanitized
script is a subsequence of the raw one, and where no pass names anything the two differ in blanks
only.
-/

set_option autoImplicit false

namespace MigrationSquash.Script

open Text (AllBlank isBlank joinLines pieces trim)

/-- The characters of a text that are not blank. -/
def visible (s : Text) : Text := s.filter (!isBlank ·)

/-- A place that lies in one of the spans. -/
def Covered (named : List Span) (position : Nat) : Prop :=
  ∃ span ∈ named, span.start ≤ position ∧ position < span.stop

/-- The second text is the first one, which starts at a place, less some of its characters: blanks,
and what lies in the named spans. -/
inductive Thins (named : List Span) : Nat → Text → Text → Prop
  | nil {position : Nat} : Thins named position [] []
  | keep {position : Nat} {c : Char} {s t : Text} :
      Thins named (position + 1) s t → Thins named position (c :: s) (c :: t)
  | drop {position : Nat} {c : Char} {s t : Text} :
      isBlank c = true ∨ Covered named position → Thins named (position + 1) s t →
        Thins named position (c :: s) t

namespace Thins

variable {named : List Span} {position : Nat} {c : Char} {s t u v : Text}

theorem refl (named : List Span) (position : Nat) (s : Text) : Thins named position s s := by
  induction s generalizing position with
  | nil => exact nil
  | cons c rest ih => exact keep (ih (position + 1))

theorem append (first : Thins named position s t) (second : Thins named (position + s.length) u v) :
    Thins named position (s ++ u) (t ++ v) := by
  induction first with
  | nil => exact second
  | keep _ ih =>
      apply keep
      apply ih
      rwa [List.length_cons, ← Nat.add_assoc, Nat.add_right_comm] at second
  | drop lost _ ih =>
      apply drop lost
      apply ih
      rwa [List.length_cons, ← Nat.add_assoc, Nat.add_right_comm] at second

/-- A text of which every character is a blank or lies in a named span may be missing. -/
theorem empty (lost : ∀ i c, s[i]? = some c → isBlank c = true ∨ Covered named (position + i)) :
    Thins named position s [] := by
  induction s generalizing position with
  | nil => exact nil
  | cons c rest ih =>
      refine drop (lost 0 c rfl) (ih fun i d found => ?_)
      have here := lost (i + 1) d found
      rwa [Nat.add_comm i 1, ← Nat.add_assoc] at here

theorem blanks (named : List Span) (position : Nat) (allBlank : AllBlank s) :
    Thins named position s [] :=
  empty fun _ c found => Or.inl (allBlank c (List.mem_of_getElem? found))

theorem covered {span : Span} (member : span ∈ named) (start : span.start ≤ position)
    (stop : position + s.length ≤ span.stop) : Thins named position s [] := by
  refine empty fun i c found => Or.inr ⟨span, member, ?_⟩
  have within := (List.getElem?_eq_some_iff.1 found).1
  omega

/-- Where no text is left, the place does not matter. -/
theorem shift {other : Nat} (same : s ≠ [] → position = other) (thins : Thins named other s t) :
    Thins named position s t := by
  cases s with
  | nil =>
      cases thins
      exact nil
  | cons c rest => rwa [same (List.cons_ne_nil c rest)]

/-- A text without a named span, in which what stands before and behind the span is thinned. -/
theorem without_span {span : Span} (member : span ∈ named) (ahead : position ≤ span.start)
    (ordered : span.start ≤ span.stop)
    (front : Thins named position (s.take (span.start - position)) t)
    (behind : Thins named span.stop (s.drop (span.stop - position)) v) :
    Thins named position s (t ++ v) := by
  have parts := take_append_part_append_drop (Nat.sub_le_sub_right ordered position) s
  have inside : Thins named (position + (s.take (span.start - position)).length)
      ((s.take (span.stop - position)).drop (span.start - position)) [] := by
    refine empty fun i c found => Or.inr ⟨span, member, ?_⟩
    have within := (List.getElem?_eq_some_iff.1 found).1
    rw [List.length_drop, List.length_take] at within
    rw [List.length_take]
    omega
  have later : Thins named (position + (s.take (span.start - position)).length +
      ((s.take (span.stop - position)).drop (span.start - position)).length)
      (s.drop (span.stop - position)) v := by
    refine shift (fun nonempty => ?_) behind
    have within := List.length_pos_iff.2 nonempty
    rw [List.length_drop] at within
    rw [List.length_drop, List.length_take, List.length_take]
    omega
  rw [← parts]
  exact front.append (inside.append (t := []) later)

theorem sublist (thins : Thins named position s t) : t.Sublist s := by
  induction thins with
  | nil => exact List.Sublist.slnil
  | keep _ ih => exact ih.cons_cons _
  | drop _ _ ih => exact ih.cons _

/-- Where nothing is named, all characters that are not blank are left. -/
theorem visible_eq (thins : Thins [] position s t) : visible t = visible s := by
  unfold visible
  induction thins with
  | nil => rfl
  | keep _ ih => simp only [List.filter_cons, ih]
  | drop lost _ ih =>
      rcases lost with blank | ⟨span, member, -⟩
      · simp [blank, ih]
      · cases member

end Thins

section Cut

variable {named : List Span}

theorem thins_dropIndentEnd (named : List Span) (position : Nat) (s : Text) :
    Thins named position s (dropIndentEnd s) := by
  have split : dropIndentEnd s ++ (s.reverse.takeWhile Text.isIndent).reverse = s := by
    rw [dropIndentEnd, ← List.reverse_append, List.takeWhile_append_dropWhile, List.reverse_reverse]
  have blank : AllBlank (s.reverse.takeWhile Text.isIndent).reverse := by
    intro c member
    exact Text.isBlank_of_isIndent (List.mem_takeWhile_imp (List.mem_reverse.1 member))
  have thins := (Thins.refl named position (dropIndentEnd s)).append (Thins.blanks named _ blank)
  rwa [split, List.append_nil] at thins

/-- The blanks that are left of a line may be missing with its line feed. -/
theorem thins_lineRest {position : Nat} {s t : Text}
    (ends : ((s.dropWhile Text.isIndent).isEmpty ||
      decide ((s.dropWhile Text.isIndent).head? = some '\n')) = true)
    (later : Thins named (position + (s.takeWhile Text.isIndent).length + 1)
      ((s.dropWhile Text.isIndent).drop 1) t) : Thins named position s t := by
  have split := List.takeWhile_append_dropWhile (p := Text.isIndent) (l := s)
  have blank : AllBlank (s.takeWhile Text.isIndent) :=
    fun c member => Text.isBlank_of_isIndent (List.mem_takeWhile_imp member)
  rw [← split]
  refine (Thins.blanks named position blank).append (t := []) ?_
  generalize s.dropWhile Text.isIndent = rest at ends later
  cases rest with
  | nil =>
      cases later
      exact Thins.nil
  | cons c rest =>
      obtain rfl : c = '\n' := by simpa using ends
      exact Thins.drop (Or.inl (by decide)) later

/-- What is cut out are the spans, and blanks of the lines on which nothing else is left. -/
theorem thins_cutFrom {removed : List Span} (among : ∀ span ∈ removed, span ∈ named)
    (ordered : ∀ span ∈ removed, span.start ≤ span.stop) (left : Option Char) (position : Nat)
    (s : Text) : Thins named position s (cutFrom left position s removed) := by
  induction removed generalizing left position s with
  | nil =>
      rw [cutFrom]
      exact Thins.refl named position s
  | cons span more ih =>
      have later := ih (fun other member => among other (List.mem_cons_of_mem _ member))
        fun other member => ordered other (List.mem_cons_of_mem _ member)
      have member := among span List.mem_cons_self
      have start := ordered span List.mem_cons_self
      rw [cutFrom]
      split
      · exact later left position s
      · rename_i ahead
        have ahead := Nat.le_of_not_lt ahead
        dsimp only
        split
        · rename_i whole
          rw [Bool.and_eq_true] at whole
          apply Thins.without_span member ahead start
          · apply thins_dropIndentEnd
          · apply thins_lineRest whole.2
            apply later
        · apply Thins.without_span member ahead start
          · apply Thins.refl
          · apply later

theorem thins_cut {s : Text} (ordered : ∀ span ∈ named, span.start ≤ span.stop) :
    Thins named 0 s (cut s named) :=
  thins_cutFrom (fun _ member => member) ordered none 0 s

end Cut

section Lines

variable {named : List Span} {position : Nat} {line t : Text} {lines rest kept : List Text}

/-- The spans of some of the lines of a text. -/
def lineSpans (isNamed : Text → Bool) (s : Text) : List Span :=
  rowSpans (fun line => line) isNamed 0 ((pieces s).map some)

theorem lineSpans_eq_nil_iff {isNamed : Text → Bool} {s : Text} :
    lineSpans isNamed s = [] ↔ ∀ line ∈ pieces s, isNamed line = false := by
  unfold lineSpans
  generalize pieces s = lines
  generalize 0 = position
  induction lines generalizing position with
  | nil => simp [rowSpans]
  | cons line rest ih => simp [rowSpans, ih]

theorem thins_line_dropped (lost : Thins named position line [])
    (later : Thins named (position + line.length + 1) (joinLines rest) t) :
    Thins named position (joinLines (line :: rest)) t := by
  cases rest with
  | nil =>
      cases later
      exact lost
  | cons next others =>
      rw [Text.joinLines_cons_cons]
      exact lost.append (t := []) (Thins.drop (Or.inl (by decide)) later)

theorem thins_line_kept (later : Thins named (position + line.length + 1) (joinLines rest) t) :
    Thins named position (line ++ '\n' :: joinLines rest) (line ++ '\n' :: t) :=
  (Thins.refl named position line).append (Thins.keep later)

theorem thins_joinLines_cons
    (later : Thins named (position + line.length + 1) (joinLines rest) (joinLines kept))
    (nothing : rest = [] → kept = []) :
    Thins named position (joinLines (line :: rest)) (joinLines (line :: kept)) := by
  cases rest with
  | nil =>
      rw [nothing rfl]
      exact Thins.refl named position line
  | cons next others =>
      rw [Text.joinLines_cons_cons]
      cases kept with
      | nil =>
          have whole := (Thins.refl named position line).append
            (Thins.drop (c := '\n') (Or.inl (by decide)) later)
          rwa [Text.joinLines_nil, List.append_nil] at whole
      | cons first more =>
          rw [Text.joinLines_cons_cons]
          exact thins_line_kept later

/-- The spans of the first line and of the others. -/
theorem forall_mem_rowSpans_cons {isNamed : Text → Bool}
    (among : ∀ span ∈ rowSpans (fun line => line) isNamed position ((line :: lines).map some),
      span ∈ named) :
    (isNamed line = true → Thins named position line []) ∧
      ∀ span ∈ rowSpans (fun line => line) isNamed (position + line.length + 1) (lines.map some),
        span ∈ named := by
  rw [List.map_cons, rowSpans, List.forall_mem_append] at among
  refine ⟨fun isNamed => ?_, among.2⟩
  rw [if_pos isNamed] at among
  exact Thins.covered (among.1 _ (List.mem_singleton_self _)) (Nat.le_refl _) (Nat.le_refl _)

theorem thins_removeTransactionLines
    (among : ∀ span ∈ rowSpans (fun line => line) (fun line => (transactionControl? line).isSome)
      position (lines.map some), span ∈ named) :
    Thins named position (joinLines lines) (removeTransactionLines lines) := by
  fun_induction removeTransactionLines lines generalizing position with
  | case1 => exact Thins.nil
  | case2 last control => exact (forall_mem_rowSpans_cons among).1 control
  | case3 last => exact Thins.refl named position last
  | case4 line next rest ih =>
      obtain ⟨lost, others⟩ := forall_mem_rowSpans_cons among
      split
      · rename_i control
        exact thins_line_dropped (lost control) (ih others)
      · rw [Text.joinLines_cons_cons, List.append_assoc]
        exact thins_line_kept (ih others)

theorem thins_dropEmptyFrom (filled : Bool)
    (among : ∀ span ∈ rowSpans (fun line => line) isSeparator position (lines.map some),
      span ∈ named) :
    Thins named position (joinLines lines) (joinLines (dropEmptyFrom filled lines)) := by
  induction lines generalizing filled position with
  | nil => exact Thins.nil
  | cons line rest ih =>
      obtain ⟨lost, others⟩ := forall_mem_rowSpans_cons among
      have keep (filled : Bool) : Thins named position (joinLines (line :: rest))
          (joinLines (line :: dropEmptyFrom filled rest)) := by
        apply thins_joinLines_cons (ih filled others)
        rintro rfl
        rfl
      rw [dropEmptyFrom]
      split
      · rename_i separates
        cases filled with
        | false => exact thins_line_dropped (lost separates) (ih false others)
        | true => exact keep false
      · exact keep _

end Lines

section Blanks

theorem thins_replaceFrom_returns (s : Text) (position : Nat) :
    Thins [] position s (Text.replaceFrom ['\r', '\n'] ['\n'] 0 s) := by
  induction length : s.length using Nat.strongRecOn generalizing s position with
  | ind n ih =>
      cases s with
      | nil => exact Thins.nil
      | cons c rest =>
          rw [List.length_cons] at length
          rw [Text.replaceFrom]
          split
          · rename_i starts
            obtain ⟨tail, split⟩ := Text.startsWith_iff.1 starts
            obtain ⟨rfl, rfl⟩ := List.cons.inj split
            apply Thins.drop (Or.inl (by decide))
            apply Thins.keep
            exact ih tail.length (by simp at length; omega) tail _ rfl
          · apply Thins.keep
            exact ih rest.length (by omega) rest _ rfl

theorem thins_collapseFrom (s : Text) (position : Nat) :
    Thins [] position s (collapseFrom 0 s) := by
  refine collapse_induction (motive := fun s t => ∀ position, Thins [] position s t)
    ?nil ?keep ?run s position
  case nil => exact fun _ => Thins.nil
  case keep => exact fun c s _ later position => Thins.keep (later (position + 1))
  case run =>
    intro blanks rest indents many _ later position
    obtain ⟨first, _, rfl⟩ := List.exists_cons_of_length_pos (show 0 < blanks.length by omega)
    rw [List.length_cons] at many
    obtain ⟨second, more, rfl⟩ := List.exists_cons_of_length_pos (Nat.lt_of_lt_of_le Nat.two_pos
      (Nat.le_of_succ_le_succ many))
    have blank {line : Text} (member : line ∈ first :: second :: more) : AllBlank line :=
      fun c inside => Text.isBlank_of_isIndent (indents line member c inside)
    have others : AllBlank (ended more) :=
      allBlank_ended fun line member => indents line (by simp [member])
    rw [ended_cons, ended_cons, List.append_assoc, List.cons_append, List.append_assoc,
      List.cons_append]
    apply Thins.keep
    apply (Thins.blanks [] _ (blank (by simp))).append (t := [])
    apply Thins.keep
    apply (Thins.blanks [] _ (blank (by simp))).append (t := [])
    apply Thins.keep
    apply (Thins.blanks [] _ others).append (t := [])
    apply later

theorem thins_trim (s : Text) (position : Nat) : Thins [] position s (trim s) := by
  obtain ⟨front, back, split, frontBlank, backBlank⟩ := Text.blanks_append_trim s
  have ends := (Thins.refl [] (position + front.length) (trim s)).append
    (Thins.blanks [] _ backBlank)
  have whole := (Thins.blanks [] position frontBlank).append (t := []) ends
  rwa [← split, List.append_nil] at whole

end Blanks

/-- The passes over a script. -/
inductive Pass where
  | lineEnds
  | preambles
  | guardedCreations
  | creations
  | entries
  | transactionLines
  | separators
  | blankRuns
  | ends
  deriving DecidableEq, Repr

namespace Pass

/-- The passes in their order. -/
def all : List Pass :=
  [lineEnds, preambles, guardedCreations, creations, entries, transactionLines, separators,
    blankRuns, ends]

/-- What a pass leaves of the text that it gets. -/
def run (table : Text) : Pass → Text → Text
  | lineEnds, s => Text.replaceAll ['\r', '\n'] ['\n'] s
  | preambles, s => removePreambles s
  | guardedCreations, s => cut s (occurrences (guardedCreate table) s)
  | creations, s => cut s (statements (createTable table) s)
  | entries, s => cut s (statements (historyRows table) s)
  | transactionLines, s => removeTransactionLines (pieces s)
  | separators, s => dropEmptyBatches s
  | blankRuns, s => collapseFrom 0 s
  | ends, s => trim s

/-- What a pass may remove from the text that it gets beside blanks: preambles outside of
transactions, the guarded creation of the history table, statements that create the table or write
its rows, lines that control transactions and separators of batches. -/
def names (table : Text) : Pass → Text → List Span
  | preambles, s => outerPreambles s
  | guardedCreations, s => occurrences (guardedCreate table) s
  | creations, s => statements (createTable table) s
  | entries, s => statements (historyRows table) s
  | transactionLines, s => lineSpans (fun line => (transactionControl? line).isSome) s
  | separators, s => lineSpans isSeparator s
  | lineEnds, _ | blankRuns, _ | ends, _ => []

variable {table s t : Text}

/-- A pass removes blanks and what it names. -/
theorem thins_run (table : Text) (pass : Pass) (s : Text) :
    Thins (pass.names table s) 0 s (pass.run table s) := by
  cases pass with
  | lineEnds => exact thins_replaceFrom_returns s 0
  | preambles =>
      apply thins_cut
      intro span member
      exact ((findsVisible_occurrences opens_preamble).shows (List.mem_filter.1 member).1).1
  | guardedCreations =>
      apply thins_cut
      intro span member
      exact ((findsVisible_occurrences (opens_guardedCreate table)).shows member).1
  | creations =>
      apply thins_cut
      intro span member
      exact ((findsVisible_statements (opens_createTable table)).shows member).1
  | entries =>
      apply thins_cut
      intro span member
      exact ((findsVisible_statements (opens_historyRows table)).shows member).1
  | transactionLines =>
      have thins : Thins (transactionLines.names table s) 0 (joinLines (pieces s))
          (removeTransactionLines (pieces s)) :=
        thins_removeTransactionLines fun span member => member
      rwa [Text.joinLines_pieces] at thins
  | separators =>
      have thins : Thins (separators.names table s) 0 (joinLines (pieces s)) (dropEmptyBatches s) :=
        thins_dropEmptyFrom false fun span member => member
      rwa [Text.joinLines_pieces] at thins
  | blankRuns => exact thins_collapseFrom s 0
  | ends => exact thins_trim s 0

/-- Passes one after the other: each removes blanks and what it names in the text that the passes
before it have left. -/
def Thinned (table : Text) : List Pass → Text → Text → Prop
  | [], s, t => t = s
  | pass :: rest, s, t =>
      Thins (pass.names table s) 0 s (pass.run table s) ∧ Thinned table rest (pass.run table s) t

theorem thinned_foldl (table : Text) (passes : List Pass) (s : Text) :
    Thinned table passes s (passes.foldl (fun s pass => pass.run table s) s) := by
  induction passes generalizing s with
  | nil => rfl
  | cons pass rest ih => exact ⟨thins_run table pass s, ih (pass.run table s)⟩

theorem Thinned.sublist {passes : List Pass} (thinned : Thinned table passes s t) :
    t.Sublist s := by
  induction passes generalizing s with
  | nil => exact thinned ▸ List.Sublist.refl s
  | cons pass rest ih => exact (ih thinned.2).trans thinned.1.sublist

theorem thinned_sanitize (table raw : Text) : Thinned table all raw (sanitize table raw) := by
  have passes : all.foldl (fun s pass => pass.run table s) raw = sanitize table raw := by
    simp only [all, List.foldl_cons, List.foldl_nil, run]
    rw [sanitize]
  rw [← passes]
  exact thinned_foldl table all raw

theorem inert_of_names (nothing : ∀ pass ∈ all, pass.names table s = []) : Inert table s := by
  have control := lineSpans_eq_nil_iff.1 (nothing transactionLines (by decide))
  simp only [Option.isSome_eq_false_iff, Option.isNone_iff_eq_none] at control
  constructor
  · exact (outerPreambles_eq_nil_iff control).1 (nothing preambles (by decide))
  · exact nothing guardedCreations (by decide)
  · exact nothing creations (by decide)
  · exact nothing entries (by decide)
  · exact control
  · exact dropEmptyFrom_of_none (lineSpans_eq_nil_iff.1 (nothing separators (by decide))) false

end Pass

/-- Where the passes name nothing, a script keeps all characters that are not blank. -/
theorem visible_sanitize {table raw : Text}
    (nothing : ∀ pass ∈ Pass.all,
      pass.names table (Text.replaceAll ['\r', '\n'] ['\n'] raw) = []) :
    visible (sanitize table raw) = visible raw := by
  rw [sanitize_eq, (removes_strip table).eq_of_idle _ (Pass.inert_of_names nothing)]
  rw [(thins_trim _ 0).visible_eq, (thins_collapseFrom _ 0).visible_eq]
  exact (thins_replaceFrom_returns raw 0).visible_eq

/-- A sanitized script is a subsequence of the raw one.  What is missing are blanks and what the
passes name, each in the text that it gets, and only blanks are missing where they name nothing. -/
theorem sanitize_only_deletes (table raw : Text) :
    (sanitize table raw).Sublist raw ∧ Pass.Thinned table Pass.all raw (sanitize table raw) ∧
      ((∀ pass ∈ Pass.all, pass.names table (Text.replaceAll ['\r', '\n'] ['\n'] raw) = []) →
        visible (sanitize table raw) = visible raw) := by
  have thinned := Pass.thinned_sanitize table raw
  exact ⟨thinned.sublist, thinned, visible_sanitize⟩

namespace Sample

/-- Two statements with blank lines around them, each ended by a carriage return and a line feed. -/
def spaced : Text := "\r\n  SELECT 1;\r\n\r\n\r\n\t\r\n\r\n\r\nSELECT 2;\r\n".toList

end Sample

theorem sanitize_only_deletes_sample :
    visible (sanitize defaultHistoryTable Sample.spaced) = "SELECT1;SELECT2;".toList := by
  have same := (sanitize_only_deletes defaultHistoryTable Sample.spaced).2.2 (by decide +kernel)
  rw [same]
  decide

end MigrationSquash.Script
