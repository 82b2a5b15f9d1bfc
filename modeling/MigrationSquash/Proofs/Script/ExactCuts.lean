import Mathlib.Data.List.DropRight
import MigrationSquash.Proofs.Script.BlankRuns
import MigrationSquash.Proofs.Script.ByteCuts

/-!
# Exact cuts

What is left of a text whose spans are cut out, place by place.  A span takes the places that it
covers, and if only blanks stand beside it on its lines, and no earlier span reaches into them, the
places of these blanks and of the end of its last line.  Main statement: what is left is the text
without the places that are taken, no span is skipped and no slice refused, and what is taken
outside the spans is blank.
-/

set_option autoImplicit false

namespace MigrationSquash.Script

open Text (isIndent)

/-- What stands before a place on its line. -/
def lineBefore (s : Text) (place : Nat) : Text := (s.take place).rtakeWhile (· ≠ '\n')

/-- What stands behind a place on its line. -/
def lineBehind (s : Text) (place : Nat) : Text := (s.drop place).takeWhile (· ≠ '\n')

/-- Nothing but blanks stands before a span on its first line and behind it on its last line, and no
earlier span reaches into the blanks before it. -/
structure Alone (s : Text) (removed : List Span) (span : Span) : Prop where
  before : ∀ c ∈ lineBefore s span.start, isIndent c = true
  behind : ∀ c ∈ lineBehind s span.stop, isIndent c = true
  clear : ∀ other ∈ removed, other.start < span.start →
    other.stop + (lineBefore s span.start).length ≤ span.start

/-- The places that go with a span: its own, or those of its lines. -/
def Takes (s : Text) (removed : List Span) (span : Span) (place : Nat) : Prop :=
  span.start ≤ place ∧ place < span.stop ∨
    Alone s removed span ∧ span.start ≤ place + (lineBefore s span.start).length ∧
      place ≤ span.stop + (lineBehind s span.stop).length

/-- The places that go with one of the spans. -/
def IsTaken (s : Text) (removed : List Span) (place : Nat) : Prop :=
  ∃ span ∈ removed, Takes s removed span place

instance (s : Text) (removed : List Span) (span : Span) : Decidable (Alone s removed span) :=
  decidable_of_iff ((lineBefore s span.start).all isIndent = true ∧
      (lineBehind s span.stop).all isIndent = true ∧ _)
    ⟨fun ⟨before, behind, clear⟩ => ⟨List.all_eq_true.1 before, List.all_eq_true.1 behind, clear⟩,
      fun alone => ⟨List.all_eq_true.2 alone.before, List.all_eq_true.2 alone.behind, alone.clear⟩⟩

instance (s : Text) (removed : List Span) (span : Span) (place : Nat) :
    Decidable (Takes s removed span place) :=
  inferInstanceAs (Decidable (_ ∧ _ ∨ _ ∧ _ ∧ _))

instance (s : Text) (removed : List Span) (place : Nat) : Decidable (IsTaken s removed place) :=
  inferInstanceAs (Decidable (∃ span ∈ removed, Takes s removed span place))

/-- The characters of `rest` that do not go with one of the spans of `s`; `rest` starts at
`place`. -/
def leftFrom (s : Text) (removed : List Span) (place : Nat) (rest : Text) : Text :=
  ((rest.zipIdx place).filter fun c => !decide (IsTaken s removed c.2)).map Prod.fst

section Left

variable {s rest more : Text} {removed : List Span} {place : Nat}

theorem leftFrom_append : leftFrom s removed place (rest ++ more) =
    leftFrom s removed place rest ++ leftFrom s removed (place + rest.length) more := by
  rw [leftFrom, List.zipIdx_append, List.filter_append, List.map_append]
  rfl

theorem leftFrom_of_not
    (kept : ∀ i, place ≤ i → i < place + rest.length → ¬ IsTaken s removed i) :
    leftFrom s removed place rest = rest := by
  rw [leftFrom, List.filter_eq_self.2, List.zipIdx_map_fst]
  rintro ⟨c, i⟩ member
  have bounds := List.mem_zipIdx member
  exact Bool.not_eq_true' _ ▸ decide_eq_false (kept i bounds.1 bounds.2.1)

theorem leftFrom_of_all
    (taken : ∀ i, place ≤ i → i < place + rest.length → IsTaken s removed i) :
    leftFrom s removed place rest = [] := by
  rw [leftFrom, List.filter_eq_nil_iff.2, List.map_nil]
  rintro ⟨c, i⟩ member
  have bounds := List.mem_zipIdx member
  simp [taken i bounds.1 bounds.2.1]

end Left

theorem rtakeWhile_eq_nil_iff {s : Text} : s.rtakeWhile (· ≠ '\n') = [] ↔ OpensLine s := by
  induction s using List.reverseRecOn with
  | nil => simp [OpensLine]
  | append_singleton front c _ =>
      by_cases feed : c = '\n' <;> simp [OpensLine, feed]

theorem takeWhile_eq_nil_iff {s : Text} : s.takeWhile (· ≠ '\n') = [] ↔ ClosesLine s := by
  cases s with
  | nil => simp [ClosesLine]
  | cons c rest => by_cases feed : c = '\n' <;> simp [ClosesLine, feed]

theorem inLine_of_isIndent {s : Text} (indents : ∀ c ∈ s, isIndent c = true) :
    ∀ c ∈ s, decide (c ≠ '\n') = true :=
  fun c member => decide_eq_true (ne_feed_of_isIndent (indents c member))

namespace Parts

variable {front rest : Text} {span : Span} (parts : Parts front rest span)

theorem lineBefore_eq : lineBefore (front ++ rest) span.start =
    (front ++ parts.kept).rtakeWhile (· ≠ '\n') ++ parts.indent := by
  have passes : ∀ c ∈ parts.indent.reverse, decide (c ≠ '\n') = true :=
    fun c member => inLine_of_isIndent parts.indents c (List.mem_reverse.1 member)
  have before : (front ++ rest).take span.start = (front ++ parts.kept) ++ parts.indent := by
    rw [parts.text_eq_before, parts.start, List.append_assoc]
    exact List.take_left
  rw [lineBefore, before, List.rtakeWhile, List.reverse_append,
    List.takeWhile_append_of_pos passes, List.reverse_append, List.reverse_reverse]
  rfl

theorem lineBehind_eq : lineBehind (front ++ rest) span.stop =
    parts.blank ++ parts.behind.takeWhile (· ≠ '\n') := by
  have behind : (front ++ rest).drop span.stop = parts.blank ++ parts.behind := by
    rw [parts.text_eq, parts.stop]
    exact List.drop_left
  rw [lineBehind, behind, List.takeWhile_append_of_pos (inLine_of_isIndent parts.blanks)]

theorem opensLine_of_blank (visible : parts.kept ≠ [])
    (blank : ∀ c ∈ lineBefore (front ++ rest) span.start, isIndent c = true) :
    OpensLine (front ++ parts.kept) := by
  obtain ⟨kept, c, split⟩ := List.eq_nil_or_concat' parts.kept |>.resolve_left visible
  have last : parts.kept.getLast? = some c := by rw [split, List.getLast?_concat]
  have goesOn : isIndent c = false := parts.keeps c last
  rw [parts.lineBefore_eq, split, ← List.append_assoc] at blank
  rw [split, ← List.append_assoc, OpensLine, List.getLast?_concat]
  rintro d ⟨⟩
  by_contra feed
  rw [List.rtakeWhile_concat_pos (· ≠ '\n') _ _ (decide_eq_true feed)] at blank
  exact Bool.noConfusion (goesOn.symm.trans (blank c (by simp)))

theorem closesLine_of_blank (blank : ∀ c ∈ lineBehind (front ++ rest) span.stop, isIndent c = true) :
    ClosesLine parts.behind := by
  intro c first
  by_contra feed
  have goesOn := parts.goesOn c first
  obtain ⟨lines, split⟩ := List.head?_eq_some_iff.1 first
  rw [parts.lineBehind_eq, split,
    List.takeWhile_cons_of_pos (p := (· ≠ '\n')) (decide_eq_true feed)] at blank
  exact Bool.noConfusion (goesOn.symm.trans (blank c (by simp)))

end Parts

/-- How far cutting has got when it has cut out the spans in `done` and gone past `front`. -/
structure Reached (s : Text) (removed done : List Span) (front : Text) : Prop where
  stops : ∀ span ∈ done, span.stop ≤ front.length
  takes : ∀ span ∈ done, ∀ place < s.length, Takes s removed span place → place < front.length
  opens : OpensLine front ∨ (∃ span ∈ done, span.stop = front.length) ∨ front.length = s.length

section Step

variable {front rest : Text} {span : Span} {done more : List Span}
  (parts : Parts front rest span)

theorem Parts.alone_of_ownsLines (cuttable : Cuttable (front ++ rest) (done ++ span :: more))
    (reached : Reached (front ++ rest) (done ++ span :: more) done front) (owns : parts.OwnsLines) :
    Alone (front ++ rest) (done ++ span :: more) span := by
  have before := parts.lineBefore_eq
  have behind := parts.lineBehind_eq
  rw [rtakeWhile_eq_nil_iff.2 owns.1, List.nil_append] at before
  rw [takeWhile_eq_nil_iff.2 owns.2, List.append_nil] at behind
  refine ⟨?_, ?_, fun other member earlier => ?_⟩
  · rw [before]
    exact parts.indents
  · rw [behind]
    exact parts.blanks
  · have start := parts.start
    have later := (List.pairwise_append.1 cuttable.ordered).2.1
    have nonempty := cuttable.nonempty span (by simp)
    rw [before]
    simp only [List.length_append] at start
    rcases List.mem_append.1 member with cutOut | left
    · have stops := reached.stops other cutOut
      omega
    · rcases List.mem_cons.1 left with rfl | behind
      · omega
      · have ordered := List.rel_of_pairwise_cons later behind
        omega

theorem Parts.ownsLines_of_alone (cuttable : Cuttable (front ++ rest) (done ++ span :: more))
    (reached : Reached (front ++ rest) (done ++ span :: more) done front)
    (alone : Alone (front ++ rest) (done ++ span :: more) span) : parts.OwnsLines := by
  refine ⟨?_, parts.closesLine_of_blank alone.behind⟩
  by_cases visible : parts.kept = []
  case neg => exact parts.opensLine_of_blank visible alone.before
  case pos =>
    have start := parts.start
    have before := congrArg List.length parts.lineBefore_eq
    rw [visible, List.append_nil] at before ⊢
    simp only [visible, List.nil_append, List.length_append] at start before
    rcases reached.opens with opens | ⟨other, member, stop⟩ | whole
    · exact opens
    · -- The span is beside an earlier one, so nothing but its indentation can be on its line.
      have inside : other ∈ done ++ span :: more := List.mem_append_left _ member
      have nonempty := cuttable.nonempty other inside
      have clear := alone.clear other inside (by omega)
      rw [← rtakeWhile_eq_nil_iff, ← List.length_eq_zero_iff]
      omega
    · have nonempty := cuttable.nonempty span (by simp)
      have inside := cuttable.inside span (by simp)
      omega

theorem Parts.alone_iff (cuttable : Cuttable (front ++ rest) (done ++ span :: more))
    (reached : Reached (front ++ rest) (done ++ span :: more) done front) :
    Alone (front ++ rest) (done ++ span :: more) span ↔ parts.OwnsLines :=
  ⟨parts.ownsLines_of_alone cuttable reached, parts.alone_of_ownsLines cuttable reached⟩

/-- A span takes what stands between the text that is copied before it and the text where copying
goes on. -/
theorem Parts.takes_iff (cuttable : Cuttable (front ++ rest) (done ++ span :: more))
    (reached : Reached (front ++ rest) (done ++ span :: more) done front) {place : Nat}
    (inside : place < (front ++ rest).length) :
    Takes (front ++ rest) (done ++ span :: more) span place ↔
      (front ++ parts.copied).length ≤ place ∧ place < parts.passed.length := by
  have start := parts.start
  have stop := parts.stop
  have before := congrArg List.length parts.lineBefore_eq
  have behind := congrArg List.length parts.lineBehind_eq
  rw [Takes, parts.alone_iff cuttable reached, copied, passed]
  rw [parts.text_eq] at inside
  by_cases owns : parts.OwnsLines
  · rw [rtakeWhile_eq_nil_iff.2 owns.1] at before
    rw [takeWhile_eq_nil_iff.2 owns.2] at behind
    have feed : (parts.behind.take 1).length = min 1 parts.behind.length := List.length_take
    simp only [owns, if_true, true_and, upTo, pastLine, List.length_append, List.length_nil] at *
    omega
  · simp only [owns, if_false, false_and, or_false, upTo, List.length_append] at *
    omega

/-- A later span takes nothing before the end of the span. -/
theorem Takes.stop_le {later : Span} {place : Nat}
    (cuttable : Cuttable (front ++ rest) (done ++ span :: more)) (member : later ∈ more)
    (takes : Takes (front ++ rest) (done ++ span :: more) later place) : span.stop ≤ place := by
  have ordered := List.rel_of_pairwise_cons (List.pairwise_append.1 cuttable.ordered).2.1 member
  have nonempty := cuttable.nonempty span (by simp)
  rcases takes with ⟨start, -⟩ | ⟨alone, start, -⟩
  · omega
  · have clear := alone.clear span (by simp) (by omega)
    omega

/-- What is copied before a span stays. -/
theorem Parts.leftFrom_copied (cuttable : Cuttable (front ++ rest) (done ++ span :: more))
    (reached : Reached (front ++ rest) (done ++ span :: more) done front) :
    leftFrom (front ++ rest) (done ++ span :: more) front.length parts.copied = parts.copied := by
  have nonempty := cuttable.nonempty span (by simp)
  have inside := cuttable.inside span (by simp)
  have beforeSpan : front.length + parts.copied.length ≤ span.start := by
    have start := parts.start
    rw [copied]
    split <;> simp only [List.length_append] at start ⊢ <;> omega
  refine leftFrom_of_not fun place low high taken => ?_
  obtain ⟨other, member, takes⟩ := taken
  rcases List.mem_append.1 member with cutOut | left
  · have before := reached.takes other cutOut place (by omega) takes
    omega
  · rcases List.mem_cons.1 left with rfl | later
    · have behind := ((parts.takes_iff cuttable reached (by omega)).1 takes).1
      rw [List.length_append] at behind
      omega
    · have behind := takes.stop_le cuttable later
      omega

/-- Nothing stays of what is left out with a span. -/
theorem Parts.leftFrom_taken (cuttable : Cuttable (front ++ rest) (done ++ span :: more))
    (reached : Reached (front ++ rest) (done ++ span :: more) done front) :
    leftFrom (front ++ rest) (done ++ span :: more) (front.length + parts.copied.length)
      parts.taken = [] := by
  have passed := congrArg List.length parts.passed_eq
  have text := congrArg List.length parts.text_eq_passed
  simp only [List.length_append] at passed text
  refine leftFrom_of_all fun place low high => ⟨span, by simp, ?_⟩
  rw [parts.takes_iff cuttable reached (by rw [List.length_append]; omega), List.length_append]
  omega

/-- Behind a span, cutting has got as far as it can. -/
theorem Parts.reached (cuttable : Cuttable (front ++ rest) (done ++ span :: more))
    (reached : Reached (front ++ rest) (done ++ span :: more) done front) :
    Reached (front ++ rest) (done ++ span :: more) (done ++ [span]) parts.passed := by
  have further : front.length ≤ parts.passed.length := by
    rw [parts.passed_eq, List.length_append]
    omega
  have stop : span.stop = parts.upTo.length := parts.stop
  have upTo : parts.upTo.length ≤ parts.passed.length := by
    rw [Parts.passed, Parts.pastLine]
    split
    · rw [List.length_append]
      omega
    · exact le_refl _
  refine ⟨fun other member => ?_, fun other member place inside takes => ?_, ?_⟩
  · rcases List.mem_append.1 member with cutOut | now
    · exact (reached.stops other cutOut).trans further
    · rw [List.mem_singleton.1 now, stop]
      exact upTo
  · rcases List.mem_append.1 member with cutOut | now
    · exact (reached.takes other cutOut place inside takes).trans_le further
    · rw [List.mem_singleton.1 now] at takes
      exact ((parts.takes_iff cuttable reached inside).1 takes).2
  · by_cases owns : parts.OwnsLines
    · rw [Parts.passed, if_pos owns]
      cases split : parts.behind with
      | nil =>
          refine .inr (.inr ?_)
          rw [parts.text_eq_pastLine, split, List.drop_nil, List.append_nil]
      | cons c lines =>
          refine .inl fun d last => ?_
          rw [Parts.pastLine, split, List.take_one, List.head?_cons, Option.toList_some,
            ← List.append_assoc, List.getLast?_concat] at last
          obtain rfl := Option.some.inj last
          exact owns.2 c (by rw [split]; rfl)
    · refine .inr (.inl ⟨span, by simp, ?_⟩)
      rw [Parts.passed, if_neg owns, stop]

/-- What cutting leaves from some place on. -/
theorem cutFrom_eq_leftFrom (cuttable : Cuttable (front ++ rest) (done ++ more))
    (reached : Reached (front ++ rest) (done ++ more) done front)
    (ahead : ∀ span ∈ more, front.length ≤ span.start) :
    cutFrom front.getLast? front.length rest more =
      leftFrom (front ++ rest) (done ++ more) front.length rest := by
  induction more generalizing front rest done with
  | nil =>
      rw [cutFrom, leftFrom_of_not]
      rintro place low high ⟨span, member, takes⟩
      rw [List.append_nil] at member
      have before := reached.takes span member place (by rw [List.length_append]; omega) takes
      omega
  | cons span more ih =>
      have member : span ∈ done ++ span :: more := by simp
      obtain ⟨parts⟩ := nonempty_parts (ahead span List.mem_cons_self)
        (cuttable.nonempty span member).le (cuttable.inside span member)
      have left := cuttable.sublist (List.sublist_append_right done (span :: more))
      have goesOn := cuttable
      have further := parts.reached cuttable reached
      have ends : front.length + parts.copied.length + parts.taken.length =
          parts.passed.length := by
        rw [parts.passed_eq, List.length_append, List.length_append, Nat.add_assoc]
      rw [parts.text_eq_passed, List.append_cons] at goesOn further
      have remaining := ih goesOn further fun later member => parts.length_passed_le left member
      rw [← parts.text_eq_passed, ← List.append_cons] at remaining
      have divided := congrArg
        (leftFrom (front ++ rest) (done ++ span :: more) front.length) parts.rest_eq
      rw [leftFrom_append, leftFrom_append, parts.leftFrom_copied cuttable reached,
        parts.leftFrom_taken cuttable reached, List.nil_append, ends] at divided
      rw [parts.cutFrom_eq left, remaining, divided]

end Step

/-- A place before another one, but not before its line, stands in the line. -/
theorem mem_lineBefore {s : Text} {place stop : Nat} {c : Char} (before : place < stop)
    (near : stop ≤ place + (lineBefore s stop).length) (stands : s[place]? = some c) :
    c ∈ lineBefore s stop := by
  obtain ⟨front, split⟩ := List.rtakeWhile_suffix (p := (· ≠ '\n')) (l := s.take stop)
  change front ++ lineBefore s stop = s.take stop at split
  have lengths := congrArg List.length split
  rw [List.length_append, List.length_take] at lengths
  rw [← List.getElem?_take_of_lt before, ← split, List.getElem?_append_right (by omega)] at stands
  exact List.mem_of_getElem? stands

/-- A place behind another one, but not behind the end of its line, stands in the line or ends
it. -/
theorem mem_lineBehind {s : Text} {place start : Nat} {c : Char} (behind : start ≤ place)
    (near : place ≤ start + (lineBehind s start).length) (stands : s[place]? = some c) :
    c ∈ lineBehind s start ∨ c = '\n' := by
  have split := List.takeWhile_append_dropWhile (p := (· ≠ '\n')) (l := s.drop start)
  change lineBehind s start ++ (s.drop start).dropWhile (· ≠ '\n') = s.drop start at split
  have offset : (s.drop start)[place - start]? = some c := by
    rw [List.getElem?_drop, Nat.add_sub_cancel' behind, stands]
  rw [← split] at offset
  rcases Nat.lt_or_ge (place - start) (lineBehind s start).length with inside | past
  · rw [List.getElem?_append_left inside] at offset
    exact .inl (List.mem_of_getElem? offset)
  · have same : place - start = (lineBehind s start).length := by omega
    rw [same, List.getElem?_append_right (le_refl _), Nat.sub_self,
      ← List.head?_eq_getElem?] at offset
    have ends := List.head?_dropWhile_not (· ≠ '\n') (s.drop start)
    rw [offset] at ends
    exact .inr (by simpa using ends)

/-- What a span takes is covered by it or blank. -/
theorem Takes.covered_or_blank {s : Text} {removed : List Span} {span : Span} {place : Nat}
    {c : Char} (takes : Takes s removed span place) (stands : s[place]? = some c) :
    (span.start ≤ place ∧ place < span.stop) ∨ isIndent c = true ∨ c = '\n' := by
  rcases takes with covered | ⟨alone, low, high⟩
  · exact .inl covered
  · rcases Nat.lt_or_ge place span.start with before | notBefore
    · exact .inr (.inl (alone.before c (mem_lineBefore before low stands)))
    · rcases Nat.lt_or_ge place span.stop with inside | behind
      · exact .inl ⟨notBefore, inside⟩
      · exact .inr ((mem_lineBehind behind high stands).imp_left (alone.behind c))

/-- Cutting out spans skips none of them and refuses no slice, it leaves every character that goes
with none of them, in order, and of what stands outside of them only blanks and line ends go. -/
theorem cut_exact {s : Text} {removed : List Span} (cuttable : Cuttable s removed) :
    cutBytes? s 0 (removed.map (Span.inBytes s)) = some (cut s removed) ∧
      cut s removed = leftFrom s removed 0 s ∧
      ∀ place c, s[place]? = some c → IsTaken s removed place →
        (∃ span ∈ removed, span.start ≤ place ∧ place < span.stop) ∨
          isIndent c = true ∨ c = '\n' := by
  have start : Reached s removed [] [] := ⟨nofun, nofun, .inl nofun⟩
  have ahead : ∀ span ∈ removed, 0 ≤ span.start := fun span _ => span.start.zero_le
  refine ⟨cutBytes?_eq_cutFrom (show Cuttable ([] ++ s) removed from cuttable) ahead,
    cutFrom_eq_leftFrom (show Cuttable ([] ++ s) ([] ++ removed) from cuttable) start ahead, ?_⟩
  rintro place c stands ⟨span, member, takes⟩
  exact (takes.covered_or_blank stands).imp_left fun covered => ⟨span, member, covered⟩

namespace Sample

def statements : Text := "é;\n\taa; \n  bb; cc;\n\n dd\n ;ee\n".toList

/-- One span has its line to itself, two share one, and one starts on a line and ends on another. -/
def places : List Span := [⟨4, 7⟩, ⟨11, 14⟩, ⟨15, 18⟩, ⟨21, 26⟩]

end Sample

theorem cut_exact_sample :
    Cuttable Sample.statements Sample.places ∧
      cutBytes? Sample.statements 0 (Sample.places.map (Span.inBytes Sample.statements)) =
        some "é;\n   \n\n ee\n".toList ∧
      leftFrom Sample.statements Sample.places 0 Sample.statements =
        "é;\n   \n\n ee\n".toList := by
  have visible : ∀ span ∈ Sample.places, Sample.statements[span.start]?.all
      (fun c => !isIndent c && c != '\n') = true := by decide
  have cuttable : Cuttable Sample.statements Sample.places := by
    refine ⟨by decide, by decide, by decide, fun span member c stands => ?_⟩
    have here := visible span member
    rw [Option.mem_def.1 stands] at here
    simpa using here
  have exact := cut_exact cuttable
  have left : leftFrom Sample.statements Sample.places 0 Sample.statements =
      "é;\n   \n\n ee\n".toList := by decide
  exact ⟨cuttable, exact.1.trans (congrArg some (exact.2.1.trans left)), left⟩

end MigrationSquash.Script
