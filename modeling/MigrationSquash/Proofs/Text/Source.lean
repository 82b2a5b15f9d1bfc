import MigrationSquash.Migration.Source
import MigrationSquash.Proofs.Text.Lines

/-!
# Sources that are read back

What is written of a source is read with the same lines, if each of its lines ends where its
newline stands and the first of them does not start with a mark.  What is read never holds a line
that does not.
-/

set_option autoImplicit false

namespace MigrationSquash

open Text (Unbroken)

/-- The first line does not start with a byte-order mark. -/
def Text.Unmarked (lines : List Text) : Prop :=
  ∀ line ∈ lines.head?, line.head? ≠ some Text.byteOrderMark

theorem Text.head?_lines {s line : Text} {c : Char} (first : (Text.lines s).head? = some line)
    (start : line.head? = some c) : s.head? = some c := by
  fun_cases Text.lines s with
  | case1 => simp [Text.lines] at first
  | case2 rest =>
      obtain rfl : [] = line := by simpa [Text.lines] using first
      cases start
  | case3 rest =>
      obtain rfl : [] = line := by simpa [Text.lines] using first
      cases start
  | case4 d rest noReturn noFeed split =>
      rw [Text.lines] at first
      · rw [split] at first
        obtain rfl := Option.some.inj first
        exact start
      · exact noReturn
      · exact noFeed
  | case5 d rest noReturn noFeed next more split =>
      rw [Text.lines] at first
      · rw [split] at first
        obtain rfl := Option.some.inj first
        exact start
      · exact noReturn
      · exact noFeed

namespace Source

variable {source : Source}

/-- What makes a source one that is read back as it was written. -/
structure Faithful (source : Source) : Prop where
  unbroken : ∀ line ∈ source.lines, Unbroken line
  noReturn : source.newline = .lineFeed → ∀ line ∈ source.lines, line.getLast? ≠ some '\r'
  unmarked : source.marked = false → Text.Unmarked source.lines

/-- What is written behind a mark, if there is one. -/
def content (source : Source) : Text :=
  Text.join source.newline.toText source.lines ++ source.newline.toText

theorem lines_append_newline {line : Text} (rest : Text) (newline : Newline)
    (unbroken : Unbroken line)
    (noReturn : newline = .lineFeed → line.getLast? ≠ some '\r') :
    Text.lines (line ++ (newline.toText ++ rest)) = line :: Text.lines rest := by
  have noFeed : ∀ c ∈ line, c ≠ '\n' := fun c member same => unbroken (same ▸ member)
  cases newline with
  | lineFeed =>
      apply Text.lines_append_lineFeed
      simpa [Text.isLine, noReturn rfl] using noFeed
  | carriageReturnLineFeed => exact Text.lines_append_returnLineFeed rest noFeed

/-- A file without lines is written as one empty line. -/
theorem lines_content (faithful : source.Faithful) :
    Text.lines source.content = if source.lines = [] then [[]] else source.lines := by
  obtain ⟨lines, newline, marked⟩ := source
  have unbroken := faithful.unbroken
  have noReturn := faithful.noReturn
  dsimp only [content] at *
  cases lines with
  | nil => cases newline <;> rfl
  | cons first rest =>
      rw [if_neg (List.cons_ne_nil _ _)]
      clear faithful
      induction rest generalizing first with
      | nil =>
          have line := lines_append_newline [] newline (unbroken first List.mem_cons_self)
            fun feed => noReturn feed first List.mem_cons_self
          rwa [List.append_nil] at line
      | cons next others ih =>
          have later := ih next (fun line member => unbroken line (List.mem_cons_of_mem _ member))
            fun feed line member => noReturn feed line (List.mem_cons_of_mem _ member)
          rw [Text.join, List.append_assoc, List.append_assoc,
            lines_append_newline _ newline (unbroken first List.mem_cons_self)
              fun feed => noReturn feed first List.mem_cons_self, later]

theorem head?_content (unmarked : Text.Unmarked source.lines) :
    source.content.head? ≠ some Text.byteOrderMark := by
  have newlineStart : source.newline.toText.head? ≠ some Text.byteOrderMark := by
    cases source.newline <;> decide
  rw [content, List.head?_append]
  cases split : source.lines with
  | nil => simpa [Text.join] using newlineStart
  | cons first rest =>
      have start : first.head? ≠ some Text.byteOrderMark := unmarked first (by rw [split]; rfl)
      cases rest with
      | nil =>
          cases first with
          | nil => simpa [Text.join] using newlineStart
          | cons c others => simpa [Text.join] using start
      | cons next others =>
          cases first with
          | nil =>
              cases source.newline <;>
                simp [Text.join, Newline.toText] <;> decide
          | cons c others => simpa [Text.join] using start

theorem lines_parse_render (faithful : source.Faithful) :
    (parse source.render).lines = if source.lines = [] then [[]] else source.lines := by
  rw [render, List.append_assoc]
  change (parse (_ ++ source.content)).lines = _
  rw [← lines_content faithful]
  cases marked : source.marked with
  | true => rfl
  | false =>
      have noMark := head?_content (faithful.unmarked marked)
      simp only [Bool.false_eq_true, if_false, List.nil_append]
      cases split : source.content with
      | nil => rfl
      | cons c rest =>
          rw [split] at noMark
          have differs : c ≠ Text.byteOrderMark := fun same => noMark (congrArg some same)
          rw [parse, if_neg differs]
          rfl

theorem exists_ofBytes?_toBytes (faithful : source.Faithful) :
    ∃ read, ofBytes? source.toBytes = some read ∧
      read.lines = if source.lines = [] then [[]] else source.lines := by
  refine ⟨parse source.render, ?_, lines_parse_render faithful⟩
  rw [ofBytes?, toBytes, Text.decode?, Text.decodeUtf8?_encodeUtf8]
  rfl

/-- The lines that are read hold no line feed, and without a mark none starts the first one. -/
theorem parse_spec (s : Text) :
    (∀ line ∈ (parse s).lines, Unbroken line) ∧
      ((parse s).marked = false → Text.Unmarked (parse s).lines) := by
  have unbroken (t : Text) : ∀ line ∈ Text.lines t, Unbroken line :=
    fun _ => Text.unbroken_of_mem_lines
  cases s with
  | nil => exact ⟨unbroken [], fun _ line first => by cases first⟩
  | cons c rest =>
      rw [parse]
      split
      case isTrue => exact ⟨unbroken rest, fun marked => by cases marked⟩
      case isFalse noMark =>
        refine ⟨unbroken (c :: rest), fun _ line first start => noMark ?_⟩
        have same := Text.head?_lines first start
        exact Option.some.inj same

theorem ofBytes?_spec {bytes : Bytes} {read : Source} (found : ofBytes? bytes = some read) :
    (∀ line ∈ read.lines, Unbroken line) ∧
      (read.marked = false → Text.Unmarked read.lines) := by
  obtain ⟨s, -, rfl⟩ := Option.map_eq_some_iff.1 found
  exact parse_spec s

end Source

end MigrationSquash
