import MigrationSquash.Proofs.Script.Passes

/-!
# Parts around a span

A span divides the text behind an earlier cut into what stands before it, up to the indentation in
front of the span, the span itself, the blanks behind it and what follows them.  The split is stated
by concatenation, so that one step of cutting can be read off the parts: either the line of the span
goes with it, or the span alone.
-/

set_option autoImplicit false

namespace MigrationSquash.Script

open Text (isIndent)

/-- A text behind which a line starts. -/
def OpensLine (s : Text) : Prop := ∀ c ∈ s.getLast?, c = '\n'

/-- A text before which a line ends. -/
def ClosesLine (s : Text) : Prop := ∀ c ∈ s.head?, c = '\n'

instance (s : Text) : Decidable (OpensLine s) :=
  decidable_of_iff (s.getLast?.all (· == '\n') = true)
    (by cases last : s.getLast? <;> simp [OpensLine, last])

instance (s : Text) : Decidable (ClosesLine s) :=
  decidable_of_iff (s.head?.all (· == '\n') = true)
    (by cases first : s.head? <;> simp [ClosesLine, first])

theorem isLineStart_getLast?_iff {front kept : Text} :
    isLineStart front.getLast? kept = true ↔ OpensLine (front ++ kept) := by
  rw [isLineStart, OpensLine, List.getLast?_append]
  cases kept.getLast? with
  | some c => simp
  | none => cases front.getLast? <;> simp

theorem isEmpty_or_head?_iff {s : Text} :
    (s.isEmpty || decide (s.head? = some '\n')) = true ↔ ClosesLine s := by
  cases s <;> simp [ClosesLine]

/-- Spans that can be cut out of a text: they are ascending, disjoint and not empty, lie inside the
text and do not start with a blank. -/
structure Cuttable (s : Text) (removed : List Span) : Prop where
  ordered : removed.Pairwise fun span later => span.stop ≤ later.start
  nonempty : ∀ span ∈ removed, span.start < span.stop
  inside : ∀ span ∈ removed, span.stop ≤ s.length
  starts : ∀ span ∈ removed, ∀ c ∈ s[span.start]?, isIndent c = false ∧ c ≠ '\n'

theorem Cuttable.sublist {s : Text} {removed fewer : List Span} (cuttable : Cuttable s removed)
    (sublist : fewer.Sublist removed) : Cuttable s fewer where
  ordered := cuttable.ordered.sublist sublist
  nonempty span member := cuttable.nonempty span (sublist.subset member)
  inside span member := cuttable.inside span (sublist.subset member)
  starts span member := cuttable.starts span (sublist.subset member)

/-- The text behind `front`, divided at a span. -/
structure Parts (front rest : Text) (span : Span) where
  kept : Text
  indent : Text
  covered : Text
  blank : Text
  behind : Text
  whole : rest = kept ++ (indent ++ (covered ++ (blank ++ behind)))
  start : span.start = (front ++ (kept ++ indent)).length
  stop : span.stop = (front ++ (kept ++ (indent ++ covered))).length
  indents : ∀ c ∈ indent, isIndent c = true
  keeps : ∀ c ∈ kept.getLast?, isIndent c = false
  blanks : ∀ c ∈ blank, isIndent c = true
  goesOn : ∀ c ∈ behind.head?, isIndent c = false

theorem dropIndentEnd_append (s : Text) :
    ∃ indent : Text, dropIndentEnd s ++ indent = s ∧ ∀ c ∈ indent, isIndent c = true := by
  refine ⟨(s.reverse.takeWhile isIndent).reverse, ?_, fun c member => ?_⟩
  · rw [dropIndentEnd, ← List.reverse_append, List.takeWhile_append_dropWhile, List.reverse_reverse]
  · exact List.mem_takeWhile_imp (List.mem_reverse.1 member)

theorem isIndent_getLast?_dropIndentEnd (s : Text) :
    ∀ c ∈ (dropIndentEnd s).getLast?, isIndent c = false := by
  intro c last
  have first := List.head?_dropWhile_not isIndent s.reverse
  rw [dropIndentEnd, List.getLast?_reverse] at last
  rw [last] at first
  simpa using first

theorem dropIndentEnd_append_indent {kept indent : Text}
    (keeps : ∀ c ∈ kept.getLast?, isIndent c = false) (indents : ∀ c ∈ indent, isIndent c = true) :
    dropIndentEnd (kept ++ indent) = kept := by
  have reversed : ∀ c ∈ indent.reverse, isIndent c = true :=
    fun c member => indents c (List.mem_reverse.1 member)
  rw [dropIndentEnd, List.reverse_append, List.dropWhile_append_of_pos reversed]
  cases split : kept.reverse with
  | nil => simpa using split
  | cons c more =>
      have stops : isIndent c = false := keeps c (by
        rw [← List.head?_reverse, split]
        rfl)
      rw [List.dropWhile_cons_of_neg (by simp [stops]), ← split, List.reverse_reverse]

/-- A span that lies behind `front` divides the text there. -/
theorem nonempty_parts {front rest : Text} {span : Span} (ahead : front.length ≤ span.start)
    (ordered : span.start ≤ span.stop) (inside : span.stop ≤ (front ++ rest).length) :
    Nonempty (Parts front rest span) := by
  rw [List.length_append] at inside
  have split := take_append_part_append_drop (Nat.sub_le_sub_right ordered front.length) rest
  have beforeLength : (rest.take (span.start - front.length)).length =
      span.start - front.length := by
    rw [List.length_take]
    omega
  have coveredLength : ((rest.take (span.stop - front.length)).drop
      (span.start - front.length)).length = span.stop - span.start := by
    rw [List.length_drop, List.length_take]
    omega
  generalize rest.take (span.start - front.length) = before at split beforeLength
  generalize (rest.take (span.stop - front.length)).drop (span.start - front.length) = covered
    at split coveredLength
  generalize rest.drop (span.stop - front.length) = after at split
  obtain ⟨indent, divided, indents⟩ := dropIndentEnd_append before
  have lengths := congrArg List.length divided
  refine ⟨⟨dropIndentEnd before, indent, covered, after.takeWhile isIndent,
    after.dropWhile isIndent, ?_, ?_, ?_, indents, isIndent_getLast?_dropIndentEnd before,
    fun c member => List.mem_takeWhile_imp member, fun c first => ?_⟩⟩
  · rw [List.takeWhile_append_dropWhile, ← List.append_assoc, divided, split]
  · simp only [List.length_append] at lengths ⊢
    omega
  · simp only [List.length_append] at lengths ⊢
    omega
  · have goes := List.head?_dropWhile_not isIndent after
    rw [first] at goes
    simpa using goes

namespace Parts

variable {front rest : Text} {span : Span} (parts : Parts front rest span)

/-- The text up to the span. -/
def before : Text := front ++ (parts.kept ++ parts.indent)

/-- The text up to the end of the span. -/
def upTo : Text := front ++ (parts.kept ++ (parts.indent ++ parts.covered))

/-- The text up to the end of the last line of the span, if only blanks follow the span there. -/
def pastLine : Text := parts.upTo ++ (parts.blank ++ parts.behind.take 1)

/-- Nothing but blanks stands beside the span on its lines behind the last cut. -/
def OwnsLines : Prop := OpensLine (front ++ parts.kept) ∧ ClosesLine parts.behind

instance : Decidable parts.OwnsLines := inferInstanceAs (Decidable (_ ∧ _))

theorem text_eq : front ++ rest = parts.upTo ++ (parts.blank ++ parts.behind) := by
  have whole := congrArg (front ++ ·) parts.whole
  simpa only [upTo, List.append_assoc] using whole

theorem text_eq_pastLine : front ++ rest = parts.pastLine ++ parts.behind.drop 1 := by
  simp only [parts.text_eq, pastLine, List.append_assoc, List.take_append_drop]

/-- What is copied before the span. -/
def copied : Text := if parts.OwnsLines then parts.kept else parts.kept ++ parts.indent

/-- The text up to where copying goes on. -/
def passed : Text := if parts.OwnsLines then parts.pastLine else parts.upTo

/-- What is left out. -/
def taken : Text :=
  if parts.OwnsLines then parts.indent ++ (parts.covered ++ (parts.blank ++ parts.behind.take 1))
  else parts.covered

/-- The text from where copying goes on. -/
def remaining : Text := if parts.OwnsLines then parts.behind.drop 1 else parts.blank ++ parts.behind

theorem text_eq_passed : front ++ rest = parts.passed ++ parts.remaining := by
  rw [passed, remaining]
  split
  · exact parts.text_eq_pastLine
  · exact parts.text_eq

theorem rest_eq : rest = parts.copied ++ (parts.taken ++ parts.remaining) := by
  rw [copied, taken, remaining]
  split
  · simpa only [List.append_assoc, List.take_append_drop] using parts.whole
  · simpa only [List.append_assoc] using parts.whole

theorem passed_eq : parts.passed = front ++ (parts.copied ++ parts.taken) := by
  rw [passed, copied, taken, pastLine, upTo]
  split <;> simp only [List.append_assoc]

theorem cutFrom_eq_ite (more : List Span) :
    cutFrom front.getLast? front.length rest (span :: more) =
      if parts.OwnsLines then
        parts.kept ++
          cutFrom (some '\n') (span.stop + parts.blank.length + 1) (parts.behind.drop 1) more
      else
        (parts.kept ++ parts.indent) ++
          cutFrom parts.upTo.getLast? parts.upTo.length (parts.blank ++ parts.behind) more := by
  obtain ⟨kept, indent, covered, blank, behind, rfl, start, stop, indents, keeps, blanks, goesOn⟩ :=
    parts
  have ahead : ¬ span.start < front.length := by
    rw [start, List.length_append]
    omega
  have taken : (kept ++ (indent ++ (covered ++ (blank ++ behind)))).take
      (span.start - front.length) = kept ++ indent := by
    rw [start, List.length_append, Nat.add_sub_cancel_left, ← List.append_assoc, List.take_left]
  have split : kept ++ (indent ++ (covered ++ (blank ++ behind))) =
      (kept ++ (indent ++ covered)) ++ (blank ++ behind) := by
    simp only [List.append_assoc]
  have removed : (kept ++ (indent ++ (covered ++ (blank ++ behind)))).take
      (span.stop - front.length) = kept ++ (indent ++ covered) := by
    rw [split, stop, List.length_append, Nat.add_sub_cancel_left, List.take_left]
  have dropped : (kept ++ (indent ++ (covered ++ (blank ++ behind)))).drop
      (span.stop - front.length) = blank ++ behind := by
    rw [split, stop, List.length_append, Nat.add_sub_cancel_left, List.drop_left]
  have stops : behind.takeWhile isIndent = [] ∧ behind.dropWhile isIndent = behind := by
    cases behind with
    | nil => exact ⟨rfl, rfl⟩
    | cons c more =>
        have visible := goesOn c rfl
        exact ⟨List.takeWhile_cons_of_neg (by simp [visible]),
          List.dropWhile_cons_of_neg (by simp [visible])⟩
  have condition : (isLineStart front.getLast? kept &&
      (behind.isEmpty || decide (behind.head? = some '\n'))) = true ↔
        OpensLine (front ++ kept) ∧ ClosesLine behind := by
    rw [Bool.and_eq_true, isLineStart_getLast?_iff, isEmpty_or_head?_iff]
  rw [cutFrom, if_neg ahead]
  simp only [taken, removed, dropped, dropIndentEnd_append_indent keeps indents,
    List.takeWhile_append_of_pos blanks, List.dropWhile_append_of_pos blanks, stops,
    List.append_nil, condition, OwnsLines, upTo]
  rw [← stop, List.getLast?_append (l := front)]
  exact if_congr Iff.rfl rfl rfl

/-- A later span starts where copying goes on or behind it. -/
theorem length_passed_le {more : List Span} (cuttable : Cuttable (front ++ rest) (span :: more))
    {later : Span} (member : later ∈ more) : parts.passed.length ≤ later.start := by
  have behindSpan : parts.upTo.length ≤ later.start := by
    rw [upTo, ← parts.stop]
    exact List.rel_of_pairwise_cons cuttable.ordered member
  rw [passed]
  split
  case isFalse => exact behindSpan
  case isTrue owns =>
    by_contra before
    -- Up to the next line there are only characters that no span starts with.
    have skipped : ∀ c ∈ parts.blank ++ parts.behind.take 1, isIndent c = true ∨ c = '\n' := by
      intro c inside
      rcases List.mem_append.1 inside with blank | feed
      · exact .inl (parts.blanks c blank)
      · refine .inr (owns.2 c ?_)
        cases split : parts.behind with
        | nil => simp [split] at feed
        | cons d more => simpa [split, eq_comm] using feed
    rw [pastLine, List.length_append] at before
    have index : later.start - parts.upTo.length < (parts.blank ++ parts.behind.take 1).length := by
      omega
    have stands : (front ++ rest)[later.start]? =
        some (parts.blank ++ parts.behind.take 1)[later.start - parts.upTo.length] := by
      rw [parts.text_eq_pastLine, pastLine, List.append_assoc, List.getElem?_append_right behindSpan,
        List.getElem?_append_left index, List.getElem?_eq_getElem index]
    obtain ⟨visible, goesOn⟩ := cuttable.starts later (List.mem_cons_of_mem span member) _ stands
    rcases skipped _ (List.getElem_mem index) with indent | feed
    · exact Bool.noConfusion (visible.symm.trans indent)
    · exact goesOn feed

/-- One step of cutting. -/
theorem cutFrom_eq {more : List Span} (cuttable : Cuttable (front ++ rest) (span :: more)) :
    cutFrom front.getLast? front.length rest (span :: more) =
      parts.copied ++ cutFrom parts.passed.getLast? parts.passed.length parts.remaining more := by
  have later : ∀ span ∈ more, parts.passed.length ≤ span.start :=
    fun _ => parts.length_passed_le cuttable
  rw [parts.cutFrom_eq_ite, copied, passed, remaining]
  rw [passed] at later
  split
  case isFalse => rfl
  case isTrue owns =>
    rw [if_pos owns] at later
    cases split : parts.behind with
    | nil =>
        -- A span behind the end of the text could not be cut out.
        have last : more = [] := by
          refine List.eq_nil_iff_forall_not_mem.2 fun span member => ?_
          have bound := later span member
          have whole := congrArg List.length parts.text_eq_pastLine
          have nonempty := cuttable.nonempty span (List.mem_cons_of_mem _ member)
          have inside := cuttable.inside span (List.mem_cons_of_mem _ member)
          rw [split, List.drop_nil, List.append_nil] at whole
          omega
        rw [last, List.drop_nil, cutFrom, cutFrom]
    | cons c lines =>
        have feed : c = '\n' := owns.2 c (by rw [split]; rfl)
        have past : parts.pastLine = parts.upTo ++ (parts.blank ++ ['\n']) := by
          rw [pastLine, split, feed]
          rfl
        have length : parts.pastLine.length = span.stop + parts.blank.length + 1 := by
          rw [past, List.length_append, List.length_append, parts.stop, upTo, Nat.add_assoc]
          rfl
        rw [length, past, ← List.append_assoc, List.getLast?_concat]

end Parts

end MigrationSquash.Script
