import MigrationSquash.Proofs.Region.Slices
import MigrationSquash.Proofs.Scan.Bytes
import MigrationSquash.Proofs.Script.SpanParts

/-!
# Cuts at bytes

Spans may be cut out of a text at offsets in bytes, by walks over the bytes beside each of them.
Here a cut is refused if a span starts before what is still to be copied, and so is a copy whose
ends are out of order, behind the end or inside a character.  Main statement: spans that are
ascending, disjoint and not empty and start with no blank are cut out without a refusal, and what
is left is what it is without the checks.
-/

set_option autoImplicit false

namespace MigrationSquash

namespace Text

theorem encodeUtf8_append (s t : Text) : encodeUtf8 (s ++ t) = encodeUtf8 s ++ encodeUtf8 t :=
  List.flatMap_append

theorem length_encodeUtf8 (s : Text) : (encodeUtf8 s).length = width s := by
  induction s with
  | nil => rfl
  | cons c rest ih =>
      rw [Code.encodeUtf8_cons, List.length_append, String.length_utf8EncodeChar, ih, width_cons]

/-- What stands between two beginnings of a text. -/
theorem slice?_append (front middle back : Text) :
    slice? (width front) (width (front ++ middle)) (front ++ (middle ++ back)) = some middle := by
  have first : IsBoundary (width front) (front ++ (middle ++ back)) :=
    isBoundary_width_append front (middle ++ back)
  have last : IsBoundary (width (front ++ middle)) (front ++ (middle ++ back)) := by
    rw [← List.append_assoc]
    exact isBoundary_width_append (front ++ middle) back
  rw [slice?_eq (by rw [width_append]; omega) first last, ← List.append_assoc,
    Code.takeBytes_width_append, Code.dropBytes_width_append]

end Text

namespace Script

open Text (encodeUtf8 isIndent slice? width)

/-- A span by the number of bytes before its start and before its end. -/
def Span.inBytes (s : Text) (span : Span) : Span :=
  ⟨width (s.take span.start), width (s.take span.stop)⟩

/-- Whether a byte is a space or a tab. -/
def isIndentByte (b : UInt8) : Bool := b == 0x20 || b == 0x09

def isFeedByte (b : UInt8) : Bool := b == 0x0A

/-- How far back only spaces and tabs stand before an offset, at most to `cursor`. -/
def walkBack (bytes : Bytes) (cursor : Nat) : Nat → Nat
  | 0 => 0
  | n + 1 =>
      if cursor < n + 1 && bytes[n]?.any isIndentByte then walkBack bytes cursor n else n + 1

/-- How far only spaces and tabs stand behind an offset. -/
def walkAhead (bytes : Bytes) (offset : Nat) : Nat :=
  offset + ((bytes.drop offset).takeWhile isIndentByte).length

/-- Cuts spans, counted in bytes, out of the text from `cursor` on, unless a span or a copy has to
be refused. -/
def cutBytes? (s : Text) : Nat → List Span → Option Text
  | cursor, [] => slice? cursor (width s) s
  | cursor, span :: more =>
      let bytes := encodeUtf8 s
      let lineStart := walkBack bytes cursor span.start
      let lineEnd := walkAhead bytes span.stop
      if span.start < cursor then
        none
      else if (lineStart = 0 || bytes[lineStart - 1]?.any isFeedByte) &&
          (lineEnd = bytes.length || bytes[lineEnd]?.any isFeedByte) then do
        let kept ← slice? cursor lineStart s
        let left ← cutBytes? s (min (lineEnd + 1) bytes.length) more
        return kept ++ left
      else do
        let kept ← slice? cursor span.start s
        let left ← cutBytes? s span.stop more
        return kept ++ left

/-- A byte is what a predicate wants if it belongs to a character that is. -/
def Reads (byte : UInt8 → Bool) (char : Char → Bool) : Prop :=
  ∀ c, ∀ b ∈ String.utf8EncodeChar c, byte b = char c

section Encoded

variable {byte : UInt8 → Bool} {char : Char → Bool}

/-- An ASCII byte stands for its character wherever it stands. -/
theorem reads_ascii {d : Char} (ascii : d.toNat < 128) :
    Reads (· == UInt8.ofNat d.toNat) (· == d) := by
  intro c b member
  rw [Bool.eq_iff_iff, beq_iff_eq, beq_iff_eq]
  rcases Code.utf8EncodeChar_cases c with ⟨low, single⟩ | ⟨high, bytes⟩
  · rw [single, List.mem_singleton] at member
    subst member
    exact ⟨Code.eq_of_ofNat_eq low ascii, fun same => by rw [same]⟩
  · constructor
    · rintro rfl
      have large := bytes _ member
      rw [Text.toNat_ofNat_of_lt (by omega)] at large
      omega
    · rintro rfl
      omega

theorem reads_indent : Reads isIndentByte isIndent := fun c b member =>
  congrArg₂ or (reads_ascii (d := ' ') (by decide) c b member)
    (reads_ascii (d := '\t') (by decide) c b member)

theorem reads_feed : Reads isFeedByte (· == '\n') := reads_ascii (d := '\n') (by decide)

theorem Reads.not (reads : Reads byte char) : Reads (fun b => !byte b) (fun c => !char c) :=
  fun c b member => congrArg Bool.not (reads c b member)

theorem Reads.all_head? (reads : Reads byte char) (s : Text) :
    (encodeUtf8 s).head?.all byte = s.head?.all char := by
  cases s with
  | nil => rfl
  | cons c rest =>
      obtain ⟨first, more, encoding, -⟩ := Code.exists_utf8EncodeChar c
      rw [Code.encodeUtf8_cons, encoding]
      exact reads c first (by rw [encoding]; exact List.mem_cons_self)

theorem Reads.all_getLast? (reads : Reads byte char) (s : Text) :
    (encodeUtf8 s).getLast?.all byte = s.getLast?.all char := by
  induction s using List.reverseRecOn with
  | nil => rfl
  | append_singleton front c ih =>
      obtain ⟨first, more, encoding, -⟩ := Code.exists_utf8EncodeChar c
      have last : (encodeUtf8 [c]).getLast? = some ((first :: more).getLast (by simp)) := by
        rw [Code.encodeUtf8_cons, encoding]
        exact (congrArg List.getLast? (List.append_nil _)).trans (List.getLast?_eq_some_getLast _)
      rw [Text.encodeUtf8_append, List.getLast?_append, last, List.getLast?_concat]
      exact reads c _ (by rw [encoding]; exact List.getLast_mem _)

theorem Reads.mem (reads : Reads byte char) {s : Text} (all : ∀ c ∈ s, char c = true) :
    ∀ b ∈ encodeUtf8 s, byte b = true := by
  intro b member
  obtain ⟨c, inside, encodes⟩ := List.mem_flatMap.1 member
  rw [reads c b encodes, all c inside]

end Encoded

section Walks

variable {left run right : Bytes} {cursor : Nat}

theorem walkBack_append (right : Bytes) (within : cursor ≤ left.length)
    (blank : ∀ b ∈ run, isIndentByte b = true)
    (stops : left.length = cursor ∨ left.getLast?.all isIndentByte = false) :
    walkBack (left ++ (run ++ right)) cursor (left.length + run.length) = left.length := by
  induction run using List.reverseRecOn generalizing right with
  | nil =>
      induction left using List.reverseRecOn with
      | nil => rfl
      | append_singleton front b _ =>
          have stands : (front ++ [b] ++ right)[front.length]? = some b := by simp
          rw [List.length_append, List.length_singleton] at stops within ⊢
          rw [List.nil_append, List.length_nil, Nat.add_zero, walkBack, stands]
          rw [List.getLast?_concat] at stops
          refine if_neg fun walks => ?_
          obtain ⟨behind, indents⟩ := Bool.and_eq_true_iff.1 walks
          rcases stops with here | visible
          · exact absurd (of_decide_eq_true behind) (by omega)
          · exact Bool.noConfusion (visible.symm.trans indents)
  | append_singleton front b ih =>
      have stands : (left ++ (front ++ [b] ++ right))[left.length + front.length]? = some b := by
        simp
      have indents : isIndentByte b = true := blank b (by simp)
      rw [List.length_append, List.length_singleton, ← Nat.add_assoc, walkBack, stands,
        if_pos (by simpa [indents] using by omega), List.append_assoc]
      exact ih _ fun other member => blank other (List.mem_append_left _ member)

theorem walkAhead_append (left : Bytes) (blank : ∀ b ∈ run, isIndentByte b = true)
    (stops : right.head?.all (fun b => !isIndentByte b) = true) :
    walkAhead (left ++ (run ++ right)) left.length = left.length + run.length := by
  have ends : right.takeWhile isIndentByte = [] := by
    cases right with
    | nil => rfl
    | cons b more => exact List.takeWhile_cons_of_neg (by simpa using stops)
  rw [walkAhead, List.drop_left, List.takeWhile_append_of_pos blank, ends, List.append_nil]

theorem opens_eq (byte : UInt8 → Bool) :
    (decide (left.length = 0) || (left ++ right)[left.length - 1]?.any byte) =
      left.getLast?.all byte := by
  induction left using List.reverseRecOn with
  | nil => rfl
  | append_singleton front b _ => simp

theorem closes_eq (byte : UInt8 → Bool) :
    (decide (left.length = (left ++ right).length) || (left ++ right)[left.length]?.any byte) =
      right.head?.all byte := by
  cases right <;> simp

end Walks

theorem all_getLast?_feed_iff {s : Text} :
    s.getLast?.all (· == '\n') = true ↔ OpensLine s := by
  rw [OpensLine]
  cases s.getLast? <;> simp

theorem all_head?_feed_iff {s : Text} : s.head?.all (· == '\n') = true ↔ ClosesLine s := by
  rw [ClosesLine]
  cases s.head? <;> simp

namespace Parts

variable {front rest : Text} {span : Span} (parts : Parts front rest span)

theorem text_eq_kept : front ++ rest = (front ++ parts.kept) ++
    (parts.indent ++ (parts.covered ++ (parts.blank ++ parts.behind))) := by
  rw [List.append_assoc, ← parts.whole]

theorem text_eq_before : front ++ rest =
    parts.before ++ (parts.covered ++ (parts.blank ++ parts.behind)) := by
  simp only [before, List.append_assoc, ← parts.whole]

theorem inBytes_eq : span.inBytes (front ++ rest) = ⟨width parts.before, width parts.upTo⟩ := by
  have start : (front ++ rest).take span.start = parts.before := by
    rw [parts.text_eq_before, parts.start]
    exact List.take_left
  have stop : (front ++ rest).take span.stop = parts.upTo := by
    rw [parts.text_eq, parts.stop]
    exact List.take_left
  rw [Span.inBytes, start, stop]

/-- The walk back from the span ends where the text is kept up to. -/
theorem walkBack_eq : walkBack (encodeUtf8 (front ++ rest)) (width front) (width parts.before) =
    width (front ++ parts.kept) := by
  have stops : (encodeUtf8 (front ++ parts.kept)).length = width front ∨
      (encodeUtf8 (front ++ parts.kept)).getLast?.all isIndentByte = false := by
    rw [Text.length_encodeUtf8, reads_indent.all_getLast?, List.getLast?_append]
    cases last : parts.kept.getLast? with
    | none => exact .inl (by rw [List.getLast?_eq_none_iff.1 last, List.append_nil])
    | some c => exact .inr (parts.keeps c last)
  have walked := walkBack_append
    (encodeUtf8 (parts.covered ++ (parts.blank ++ parts.behind)))
    (by rw [Text.length_encodeUtf8, Text.width_append]; omega) (reads_indent.mem parts.indents) stops
  rw [← Text.encodeUtf8_append, ← Text.encodeUtf8_append, ← parts.text_eq_kept] at walked
  simpa only [Text.length_encodeUtf8, before, ← Text.width_append, List.append_assoc] using walked

/-- The walk on from the span ends behind the blanks there. -/
theorem walkAhead_eq : walkAhead (encodeUtf8 (front ++ rest)) (width parts.upTo) =
    width (parts.upTo ++ parts.blank) := by
  have stops : (encodeUtf8 parts.behind).head?.all (fun b => !isIndentByte b) = true := by
    rw [reads_indent.not.all_head?]
    cases first : parts.behind.head? with
    | none => rfl
    | some c => exact congrArg Bool.not (parts.goesOn c first)
  have walked := walkAhead_append (encodeUtf8 parts.upTo)
    (reads_indent.mem parts.blanks) stops
  rw [← Text.encodeUtf8_append, ← Text.encodeUtf8_append, ← parts.text_eq] at walked
  simpa only [Text.length_encodeUtf8, ← Text.width_append] using walked

theorem opensLine_iff :
    (decide (width (front ++ parts.kept) = 0) ||
        (encodeUtf8 (front ++ rest))[width (front ++ parts.kept) - 1]?.any isFeedByte) = true ↔
      OpensLine (front ++ parts.kept) := by
  rw [parts.text_eq_kept, Text.encodeUtf8_append, ← Text.length_encodeUtf8, opens_eq,
    reads_feed.all_getLast?, all_getLast?_feed_iff]

theorem closesLine_iff :
    (decide (width (parts.upTo ++ parts.blank) = (encodeUtf8 (front ++ rest)).length) ||
        (encodeUtf8 (front ++ rest))[width (parts.upTo ++ parts.blank)]?.any isFeedByte) = true ↔
      ClosesLine parts.behind := by
  rw [parts.text_eq, ← List.append_assoc, Text.encodeUtf8_append, ← Text.length_encodeUtf8,
    closes_eq, reads_feed.all_head?, all_head?_feed_iff]

theorem min_eq_width_pastLine (closes : ClosesLine parts.behind) :
    min (width (parts.upTo ++ parts.blank) + 1) (encodeUtf8 (front ++ rest)).length =
      width parts.pastLine := by
  rw [Text.length_encodeUtf8, parts.text_eq, pastLine, ← List.append_assoc, ← List.append_assoc]
  cases split : parts.behind with
  | nil => simp
  | cons c more =>
      have feed : c = '\n' := closes c (by rw [split]; rfl)
      have one : Char.utf8Size '\n' = 1 := by decide
      simp only [Text.width_append, feed, Text.width_cons, one, List.take_one, List.head?_cons,
        Option.toList_some, Text.width_nil]
      omega

/-- One step of cutting at bytes. -/
theorem cutBytes?_eq (more : List Span) :
    cutBytes? (front ++ rest) (width front) (span.inBytes (front ++ rest) :: more) =
      (cutBytes? (front ++ rest) (width parts.passed) more).map (parts.copied ++ ·) := by
  have ahead : ¬ width parts.before < width front := by
    rw [before, Text.width_append]
    omega
  have kept : slice? (width front) (width (front ++ parts.kept)) (front ++ rest) =
      some parts.kept := by
    rw [parts.text_eq_kept, List.append_assoc]
    exact Text.slice?_append front parts.kept _
  have before : slice? (width front) (width parts.before) (front ++ rest) =
      some (parts.kept ++ parts.indent) := by
    rw [parts.text_eq_before, before, List.append_assoc]
    exact Text.slice?_append front (parts.kept ++ parts.indent) _
  have owned : OpensLine (front ++ parts.kept) ∧ ClosesLine parts.behind ↔ parts.OwnsLines :=
    Iff.rfl
  rw [parts.inBytes_eq, cutBytes?, passed, copied]
  simp only [parts.walkBack_eq, parts.walkAhead_eq, if_neg ahead, Bool.and_eq_true,
    parts.opensLine_iff, parts.closesLine_iff, owned]
  by_cases owns : parts.OwnsLines
  · simp only [if_pos owns, kept, parts.min_eq_width_pastLine owns.2]
    cases cutBytes? (front ++ rest) (width parts.pastLine) more <;> rfl
  · simp only [if_neg owns, before]
    cases cutBytes? (front ++ rest) (width parts.upTo) more <;> rfl

end Parts

/-- Cutting at bytes refuses nothing if the spans can be cut out. -/
theorem cutBytes?_eq_cutFrom {removed : List Span} {front rest : Text}
    (cuttable : Cuttable (front ++ rest) removed)
    (ahead : ∀ span ∈ removed, front.length ≤ span.start) :
    cutBytes? (front ++ rest) (width front) (removed.map (Span.inBytes (front ++ rest))) =
      some (cutFrom front.getLast? front.length rest removed) := by
  induction removed generalizing front rest with
  | nil =>
      have left := Text.slice?_append front rest []
      rw [List.append_nil] at left
      rw [List.map_nil, cutBytes?, left, cutFrom]
  | cons span more ih =>
      obtain ⟨parts⟩ := nonempty_parts (ahead span List.mem_cons_self)
        (cuttable.nonempty span List.mem_cons_self).le (cuttable.inside span List.mem_cons_self)
      have goesOn := cuttable.sublist (List.sublist_cons_self span more)
      rw [parts.text_eq_passed] at goesOn
      have left := ih goesOn fun later member => parts.length_passed_le cuttable member
      rw [← parts.text_eq_passed] at left
      rw [List.map_cons, parts.cutBytes?_eq, parts.cutFrom_eq cuttable, left, Option.map_some]

end Script

end MigrationSquash
