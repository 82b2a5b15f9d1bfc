import MigrationSquash.Proofs.Script.Constructs
import MigrationSquash.Proofs.Script.ShownLines
import MigrationSquash.Proofs.Script.Thinning

/-!
# The normal form of scripts

A sanitized script is in a normal form if the raw one has no other blanks than those that lay out
its lines.  Main statement: such a script starts and ends with no blank, ends its lines with line
feeds alone, controls no transaction, has no three blank lines one after the other and separates no
empty batch, whatever the passes cut out of it on the way.
-/

set_option autoImplicit false

namespace MigrationSquash.Script

open Text (AllBlank SameFolded Unbroken foldCase isBlank isIndent joinLines pieces trim)

/-- A line that starts or ends a transaction and does nothing else, in either case and with any
blanks around the words. -/
def ControlsTransaction (line : Text) : Prop :=
  ∃ words gap, trim line = words ++ (gap ++ [';']) ∧ AllBlank gap ∧
    (Phrased "BEGIN".toList "TRANSACTION".toList words ∨
      Phrased "START".toList "TRANSACTION".toList words ∨ SameFolded words "COMMIT".toList)

/-- A script in which every blank indents a line or ends it, with a carriage return only directly
before a line feed. -/
structure PlainBlanks (raw : Text) : Prop where
  plain : ∀ c ∈ raw, isBlank c = true → c ∈ [' ', '\t', '\n', '\r']
  returns : ∀ t ∈ raw.tails, t.head? = some '\r' → t.tail.head? = some '\n'

/-- What a sanitized script looks like.  Between a separator and the one before it, or the start,
there is a line that is not blank. -/
structure NormalForm (s : Text) : Prop where
  starts : ∀ c ∈ s.head?, isBlank c = false
  ends : ∀ c ∈ s.getLast?, isBlank c = false
  noReturn : '\r' ∉ s
  uncontrolled : ∀ line ∈ pieces s, ¬ ControlsTransaction line
  noGap : ∀ first second third, AllBlank first → AllBlank second → AllBlank third →
    ¬ [first, second, third] <:+: pieces s
  filled : ∀ before line after, pieces s = before ++ line :: after → isSeparator line = true →
    ∃ front batch, before = front ++ batch ∧ (∀ other ∈ batch, isSeparator other = false) ∧
      ∃ content ∈ batch, ¬ AllBlank content

section Trim

variable {c : Char} {s : Text}

theorem isBlank_head_trim (first : c ∈ (trim s).head?) : isBlank c = false := by
  obtain ⟨rest, starts⟩ := List.head?_eq_some_iff.1 first
  obtain ⟨blanks, split, -⟩ := Text.trimEnd_append_blanks (Text.trimStart s)
  have visible := List.head?_dropWhile_not isBlank s
  rw [Text.trim] at starts
  rw [← Text.trimStart, split, starts] at visible
  simpa using visible

theorem isBlank_getLast_trim (last : c ∈ (trim s).getLast?) : isBlank c = false := by
  rw [← Bool.not_eq_true]
  intro blank
  exact Text.getLast?_trimEnd_ne blank (Text.trimStart s) last

end Trim

section Control

variable {line other indent words rest tail : Text}

theorem skipIndent_append (indents : ∀ c ∈ indent, isIndent c = true) (s : Text) :
    skipIndent (indent ++ s) = skipIndent s := List.dropWhile_append_of_pos indents

theorem skipIndent_of_visible {c : Char} (visible : isBlank c = false) (rest : Text) :
    skipIndent (c :: rest) = c :: rest := by
  simp [skipIndent, not_isIndent_of_visible visible]

theorem afterWords?_of_phrased {first second : Text}
    (visible : ∃ c more, second = c :: more ∧ isBlank c = false)
    (phrased : Phrased first second words)
    (plain : ∀ c ∈ words, isBlank c = true → isIndent c = true) (rest : Text) :
    afterWords? first second (words ++ rest) = some rest := by
  obtain ⟨c, more, rfl, visible⟩ := visible
  obtain ⟨start, gap, stop, rfl, same, ⟨nonempty, blank⟩, sameStop⟩ := phrased
  obtain ⟨d, others, rfl, folded, -⟩ := Text.sameFolded_cons_iff.1 sameStop
  have indents : ∀ c ∈ gap, isIndent c = true := fun c member =>
    plain c (by simp [member]) (blank c member)
  have shows : isBlank d = false := by rwa [Text.isBlank_eq_of_foldCase_eq folded]
  have found : Text.afterFolded? first (start ++ (gap ++ (d :: others ++ rest))) =
      some (gap ++ (d :: others ++ rest)) :=
    Text.afterFolded?_eq_some_iff.2 ⟨start, rfl, same⟩
  have skipped : skipIndent (gap ++ (d :: others ++ rest)) = d :: others ++ rest := by
    rw [skipIndent_append indents]
    exact skipIndent_of_visible shows _
  have longer : (d :: others ++ rest).length < (gap ++ (d :: others ++ rest)).length := by
    have := List.length_pos_iff.2 nonempty
    simp only [List.length_append]
    omega
  rw [List.append_assoc, List.append_assoc, afterWords?, found]
  simp only [Option.bind_eq_bind, Option.bind_some]
  rw [skipped, if_pos longer]
  exact Text.afterFolded?_eq_some_iff.2 ⟨d :: others, rfl, sameStop⟩

/-- Words with another first letter are not read. -/
theorem afterWords?_of_other {first second : Text} (c : Char)
    (starts : Phrased "START".toList second words) (other : foldCase c ≠ foldCase 'S') :
    afterWords? (c :: first) second (words ++ rest) = none := by
  obtain ⟨start, gap, stop, rfl, same, -⟩ := starts
  obtain ⟨d, more, rfl, folded, -⟩ := Text.sameFolded_cons_iff.1
    (show SameFolded start ('S' :: "TART".toList) from same)
  have nothing : Text.afterFolded? (c :: first) (d :: more ++ (gap ++ stop) ++ rest) = none := by
    rw [List.cons_append, List.cons_append, Text.afterFolded?, if_neg (folded ▸ other)]
  rw [afterWords?, nothing]
  rfl

theorem isSome_transactionControl?
    (starts : (afterWords? "BEGIN".toList "TRANSACTION".toList (skipIndent line)).or
        (afterWords? "START".toList "TRANSACTION".toList (skipIndent line)) = some rest ∨
      Text.afterFolded? "COMMIT".toList (skipIndent line) = some rest)
    (semicolon : skipIndent rest = ';' :: tail) (last : skipIndent tail = []) :
    (transactionControl? line).isSome = true := by
  rw [transactionControl?]
  rcases starts with starts | commits
  · simp only [starts, Option.any_some, semicolon, last]
    rfl
  · simp only [commits, Option.any_some, semicolon, last]
    split <;> rfl

/-- A line that controls a transaction is recognised, if all of its blanks can indent it. -/
theorem ControlsTransaction.isSome (controls : ControlsTransaction line)
    (plain : ∀ c ∈ line, isBlank c = true → isIndent c = true) :
    (transactionControl? line).isSome = true := by
  obtain ⟨words, gap, trimmed, gapBlank, forms⟩ := controls
  obtain ⟨front, back, split, frontBlank, backBlank⟩ := Text.blanks_append_trim line
  have whole : line = front ++ (words ++ (gap ++ ';' :: back)) := by
    rw [trimmed] at split
    simpa only [List.append_assoc, List.singleton_append] using split
  have indents {part : Text} (blank : AllBlank part) (inside : part ⊆ line) :
      ∀ c ∈ part, isIndent c = true := fun c member => plain c (inside member) (blank c member)
  have statement : skipIndent line = words ++ (gap ++ ';' :: back) := by
    obtain ⟨c, rest, first⟩ := List.exists_cons_of_ne_nil (show trim line ≠ [] by simp [trimmed])
    have visible : isBlank c = false := isBlank_head_trim (s := line) (by simp [first])
    have starts : words ++ (gap ++ ';' :: back) = c :: (rest ++ back) := by
      rw [← List.cons_append, ← first, trimmed]
      simp
    rw [whole, skipIndent_append (indents frontBlank fun c member => by simp [whole, member]),
      starts, skipIndent_of_visible visible]
  have semicolon : skipIndent (gap ++ ';' :: back) = ';' :: back := by
    rw [skipIndent_append (indents gapBlank fun c member => by simp [whole, member])]
    exact skipIndent_of_visible (by decide) back
  have last : skipIndent back = [] :=
    List.dropWhile_eq_nil_iff.2 (indents backBlank fun c member => by simp [whole, member])
  have wordsPlain : ∀ c ∈ words, isBlank c = true → isIndent c = true := fun c member =>
    plain c (by simp [whole, member])
  have transaction : ∃ c more, "TRANSACTION".toList = c :: more ∧ isBlank c = false :=
    ⟨'T', "RANSACTION".toList, rfl, by decide⟩
  refine isSome_transactionControl? ?_ semicolon last
  rw [statement]
  rcases forms with begins | starts | commits
  · left
    rw [afterWords?_of_phrased transaction begins wordsPlain, Option.some_or]
  · left
    rw [afterWords?_of_phrased transaction starts wordsPlain]
    have other :
        afterWords? "BEGIN".toList "TRANSACTION".toList (words ++ (gap ++ ';' :: back)) = none :=
      afterWords?_of_other 'B' starts (by decide)
    exact (congrArg (Option.or · _) other).trans rfl
  · right
    exact Text.afterFolded?_eq_some_iff.2 ⟨words, rfl, commits⟩

theorem ControlsTransaction.congr (controls : ControlsTransaction line)
    (same : trim line = trim other) : ControlsTransaction other := by
  unfold ControlsTransaction at controls ⊢
  rwa [same] at controls

theorem ControlsTransaction.trim_ne_nil (controls : ControlsTransaction line) : trim line ≠ [] := by
  obtain ⟨words, gap, trimmed, -⟩ := controls
  rw [trimmed]
  simp

end Control

section Unix

variable {s t line raw : Text}

/-- A text of which every blank indents a line or ends it. -/
def Unix (s : Text) : Prop := ∀ c ∈ s, isBlank c = true → isIndent c = true ∨ c = '\n'

theorem Unix.sublist (unix : Unix s) (shorter : t.Sublist s) : Unix t :=
  fun c member => unix c (shorter.subset member)

theorem Unix.noReturn (unix : Unix s) : '\r' ∉ s := by
  intro member
  exact absurd (unix '\r' member (by decide)) (by decide)

theorem Unix.isIndent_of_mem_piece (unix : Unix s) (member : line ∈ pieces s) {c : Char}
    (inside : c ∈ line) (blank : isBlank c = true) : isIndent c = true := by
  have among : c ∈ s := by
    rw [← Text.joinLines_pieces s]
    exact Text.mem_joinLines_of_mem member inside
  refine (unix c among blank).resolve_right ?_
  rintro rfl
  exact Text.unbroken_of_mem_pieces member inside

theorem Unix.indents {lines : List Text} (unix : Unix s) (among : lines ⊆ pieces s)
    (blank : ∀ line ∈ lines, AllBlank line) : Indents lines := fun line member c inside =>
  unix.isIndent_of_mem_piece (among member) inside (blank line member c inside)

/-- Without the carriage returns before line feeds a plain script has blanks that lay out its lines
only. -/
theorem PlainBlanks.unix (plainBlanks : PlainBlanks raw) :
    Unix (Text.replaceAll ['\r', '\n'] ['\n'] raw) := by
  obtain ⟨plain, returns⟩ := plainBlanks
  unfold Text.replaceAll
  induction length : raw.length using Nat.strongRecOn generalizing raw with
  | ind n ih =>
      cases raw with
      | nil => simp [Unix, Text.replaceFrom]
      | cons c rest =>
          rw [List.length_cons] at length
          have later {t : Text} (behind : t <:+ c :: rest) (shorter : t.length < n) :
              Unix (Text.replaceFrom ['\r', '\n'] ['\n'] 0 t) := by
            refine ih t.length shorter (fun d member => plain d (behind.subset member))
              (fun u member => returns u ?_) rfl
            rw [List.mem_tails] at member ⊢
            exact member.trans behind
          rw [Text.replaceFrom]
          split
          · rename_i starts
            obtain ⟨tail, split⟩ := Text.startsWith_iff.1 starts
            obtain ⟨rfl, rfl⟩ := List.cons.inj split
            have tailUnix := later (t := tail) ⟨['\r', '\n'], rfl⟩ (by simp at length; omega)
            exact List.forall_mem_cons.2 ⟨fun _ => Or.inr rfl, tailUnix⟩
          · rename_i starts
            have restUnix := later (t := rest) (List.suffix_cons c rest) (by omega)
            refine List.forall_mem_cons.2 ⟨fun blank => ?_, restUnix⟩
            have among := plain c List.mem_cons_self blank
            have noReturn : c ≠ '\r' := by
              rintro rfl
              have feed := returns ('\r' :: rest) (by simp) rfl
              obtain ⟨tail, split⟩ := List.head?_eq_some_iff.1 feed
              rw [List.tail_cons] at split
              rw [split] at starts
              exact starts (Text.startsWith_iff.2 ⟨tail, rfl⟩)
            simp only [List.mem_cons, List.not_mem_nil, or_false] at among
            rcases among with rfl | rfl | rfl | rfl
            · exact Or.inl (by decide)
            · exact Or.inl (by decide)
            · exact Or.inr rfl
            · exact absurd rfl noReturn

end Unix

section Gap

variable {s t : Text} {lines : List Text}

theorem blankLines_append_le (pending : Nat) (s t : Text) :
    (blankLines pending s).1 ≤ (blankLines pending (s ++ t)).1 := by
  induction s generalizing pending with
  | nil => exact Nat.zero_le _
  | cons c rest ih =>
      rw [List.cons_append, blankLines, blankLines]
      split
      · exact Nat.succ_le_succ (ih 0)
      · split
        · exact ih (pending + 1)
        · exact Nat.le_refl _

theorem NoGap.part (noGap : NoGap s) (inside : t <:+: s) : NoGap t := by
  obtain ⟨front, back, rfl⟩ := inside
  rintro before after rfl
  have few := noGap (front ++ before) (after ++ back) (by simp)
  exact Nat.lt_of_le_of_lt (blankLines_append_le 0 after back) few

theorem noGap_trim_collapse (s : Text) : NoGap (trim (collapseFrom 0 s)) := by
  obtain ⟨front, back, split, -, -⟩ := Text.blanks_append_trim (collapseFrom 0 s)
  exact (noGap_collapse s).part ⟨front, back, by rw [List.append_assoc, ← split]⟩

theorem joinLines_append_of_ne_nil (lines : List Text) {rest : List Text} (nonempty : rest ≠ []) :
    joinLines (lines ++ rest) = ended lines ++ joinLines rest := by
  induction lines with
  | nil => rfl
  | cons line more ih =>
      have longer : more ++ rest ≠ [] := by simp [nonempty]
      obtain ⟨next, others, split⟩ := List.exists_cons_of_ne_nil longer
      rw [List.cons_append, split, Text.joinLines_cons_cons, ← split, ih, ended_cons,
        List.append_assoc, List.cons_append]

/-- Where no run is longer than two blank lines and no blank stands at the ends, no three lines
in a row are blank. -/
theorem NoGap.not_three_blank (noGap : NoGap s) (unix : Unix s)
    (starts : ∀ c ∈ s.head?, isBlank c = false) (ends : ∀ c ∈ s.getLast?, isBlank c = false)
    (blank : ∀ line ∈ lines, AllBlank line) (three : lines.length = 3) :
    ¬ lines <:+: pieces s := by
  rintro ⟨front, back, split⟩
  have whole := Text.joinLines_pieces s
  have indents : Indents lines := unix.indents (split ▸ by simp) blank
  rw [← split] at whole
  obtain ⟨first, second, third, rfl⟩ := List.length_eq_three.1 three
  cases front with
  | nil =>
      simp only [List.nil_append, List.cons_append, Text.joinLines_cons_cons] at whole
      subst whole
      cases first with
      | nil => exact absurd (starts '\n' rfl) (by decide)
      | cons c rest =>
          have visible := starts c rfl
          rw [blank (c :: rest) (by simp) c (by simp)] at visible
          cases visible
  | cons line more =>
      cases back with
      | nil =>
          rw [List.append_nil, show [first, second, third] = [first, second] ++ [third] from rfl,
            ← List.append_assoc, Text.joinLines_append _ _ (by simp) (by simp)] at whole
          subst whole
          rcases List.eq_nil_or_concat third with rfl | ⟨others, c, rfl⟩
          · exact absurd (ends '\n' (by simp)) (by decide)
          · have visible := ends c (by simp [List.getLast?_cons])
            rw [blank (others.concat c) (by simp) c (by simp)] at visible
            cases visible
      | cons next others =>
          rw [List.append_assoc, Text.joinLines_append _ _ (by simp) (by simp),
            joinLines_append_of_ne_nil _ (by simp)] at whole
          have few := noGap _ _ whole.symm
          rw [blankLines_ended indents, List.length_cons, List.length_cons,
            List.length_singleton] at few
          omega

end Gap

section Lines

variable {lines : List Text}

theorem uncontrolled_removeTransactionLines (unbroken : ∀ line ∈ lines, Unbroken line) :
    Uncontrolled (removeTransactionLines lines) := by
  unfold Uncontrolled
  fun_induction removeTransactionLines lines with
  | case1 => simp [pieces]; decide
  | case2 last control => simp [pieces]; decide
  | case3 last noControl =>
      rw [(Text.pieces_append (unbroken last (by simp)) []).2]
      simpa using noControl
  | case4 line next rest ih =>
      obtain ⟨here, later⟩ := List.forall_mem_cons.1 unbroken
      split
      · exact ih later
      · rename_i noControl
        rw [List.append_assoc, List.singleton_append, (Text.pieces_append here _).1]
        exact List.forall_mem_cons.2 ⟨by simpa using noControl, ih later⟩

theorem dropEmptyFrom_sublist (filled : Bool) (lines : List Text) :
    (dropEmptyFrom filled lines).Sublist lines := by
  induction lines generalizing filled with
  | nil => exact List.Sublist.slnil
  | cons line rest ih =>
      rw [dropEmptyFrom]
      split
      · cases filled with
        | false => exact (ih false).cons line
        | true => exact (ih false).cons_cons line
      · exact (ih _).cons_cons line

/-- The passes up to the rows of the history table leave a part of the script. -/
theorem exists_strip (table s : Text) :
    ∃ t : Text, t.Sublist s ∧
      strip table s = dropEmptyBatches (removeTransactionLines (pieces t)) := by
  have shorter := (Pass.thinned_foldl table
    [.preambles, .guardedCreations, .creations, .entries] s).sublist
  simp only [List.foldl_cons, List.foldl_nil, Pass.run] at shorter
  exact ⟨_, shorter, by rw [strip]⟩

/-- The blanks that the last passes leave were there before. -/
theorem Unix.last {left : Text} (unix : Unix left) :
    Unix (trim (collapseFrom 0 (dropEmptyBatches left))) := by
  have shorter := (Pass.thinned_foldl [] [.separators, .blankRuns, .ends] left).sublist
  exact unix.sublist shorter

end Lines

/-- The last passes bring a text into normal form from which the lines that control transactions
are removed. -/
theorem normalForm_of_uncontrolled {left : Text} (unix : Unix left)
    (uncontrolled : Uncontrolled left) :
    NormalForm (trim (collapseFrom 0 (dropEmptyBatches left))) := by
  have among := (dropEmptyFrom_sublist false (pieces left)).subset
  -- Shortening runs and trimming leave the lines that the batches show.
  have shown : shownLines (pieces (trim (collapseFrom 0 (dropEmptyBatches left)))) =
      shownLines (dropEmptyFrom false (pieces left)) := by
    rw [shownLines_pieces_trim, ← (showSame_collapse _).shownLines_eq, dropEmptyBatches,
      shownLines_pieces_joinLines fun line member => Text.unbroken_of_mem_pieces (among member)]
  constructor
  case starts => exact fun c => isBlank_head_trim
  case ends => exact fun c => isBlank_getLast_trim
  case noReturn => exact unix.last.noReturn
  case uncontrolled =>
    intro line member controls
    have shows := mem_shownLines_iff.2 ⟨controls.trim_ne_nil, line, member, rfl⟩
    rw [shown] at shows
    obtain ⟨-, other, kept, same⟩ := mem_shownLines_iff.1 shows
    have found := (controls.congr same.symm).isSome fun c =>
      unix.isIndent_of_mem_piece (among kept)
    rw [uncontrolled other (among kept)] at found
    cases found
  case noGap =>
    intro first second third blankFirst blankSecond blankThird
    apply (noGap_trim_collapse _).not_three_blank unix.last (fun c => isBlank_head_trim) fun c =>
      isBlank_getLast_trim
    · simp [blankFirst, blankSecond, blankThird]
    · rfl
  case filled =>
    intro before line after split separates
    have closes := closes_dropEmptyFrom false (pieces left)
    rw [← closes_shownLines_iff, ← shown, closes_shownLines_iff] at closes
    rcases closes.exists_batch split separates with ⟨impossible, -⟩ | found
    · cases impossible
    · exact found

/-- What is left of a plain script is in normal form. -/
theorem sanitize_normalForm (table : Text) {raw : Text} (plain : PlainBlanks raw) :
    NormalForm (sanitize table raw) := by
  obtain ⟨part, shorter, stripped⟩ := exists_strip table (Text.replaceAll ['\r', '\n'] ['\n'] raw)
  have unix := (plain.unix.sublist shorter).sublist
    (Pass.thins_run table .transactionLines part).sublist
  rw [sanitize_eq, stripped]
  apply normalForm_of_uncontrolled unix
  exact uncontrolled_removeTransactionLines fun line member => Text.unbroken_of_mem_pieces member

namespace Sample

/-- A script with carriage returns, indented words that control a transaction, a batch of which
nothing is left and a long run of blank lines. -/
def ragged : Text :=
  "  begin\t transaction ;\r\nGO\r\n\r\n\r\nSELECT 1;\r\n \r\n\r\n\t\r\n\r\nCommit;\r\nGO\r\n\r\nGO\r\n".toList

theorem plainBlanks_ragged : PlainBlanks ragged := by
  have blanks : ragged.all (fun c => !isBlank c || [' ', '\t', '\n', '\r'].contains c) = true := by
    decide +kernel
  constructor
  case plain =>
    intro c member blank
    simpa [blank] using List.all_eq_true.1 blanks c member
  case returns => decide +kernel

end Sample

theorem sanitize_normalForm_sample :
    NormalForm (sanitize defaultHistoryTable Sample.ragged) ∧
      sanitize defaultHistoryTable Sample.ragged = "SELECT 1;\n\n\nGO".toList := by
  refine ⟨sanitize_normalForm defaultHistoryTable Sample.plainBlanks_ragged, ?_⟩
  decide +kernel

end MigrationSquash.Script
