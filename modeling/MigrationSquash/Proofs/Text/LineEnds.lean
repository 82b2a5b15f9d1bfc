import MigrationSquash.Proofs.Text.Source

/-!
# Line ends of a source

A source has one newline for all of its lines, and writes it behind the last line too.  Main
statements: a text comes out of reading and writing as it was exactly if all of its lines end, and
all in the same way, and a source with lines comes out of writing and reading as it was if each of
them ends where its newline stands.
-/

set_option autoImplicit false

namespace MigrationSquash

open Text (Unbroken dropReturn)

/-- A text without the byte-order mark that may start it. -/
def Text.withoutMark : Text → Text
  | [] => []
  | c :: rest => if c = byteOrderMark then rest else c :: rest

/-- A text of which every line ends, and all of them in the same way. -/
structure Text.Uniform (s : Text) : Prop where
  ended : s.getLast? = some '\n'
  alike : (∀ before after, s = before ++ '\n' :: after → before.getLast? = some '\r') ∨
    ∀ before after, s = before ++ '\n' :: after → before.getLast? ≠ some '\r'

namespace Newline

variable {newline : Newline} {line rest s : Text}

/-- What stands before the line feed of a newline. -/
def returns : Newline → Text
  | lineFeed => []
  | carriageReturnLineFeed => ['\r']

theorem append_toText (newline : Newline) (line rest : Text) :
    line ++ (newline.toText ++ rest) = (line ++ newline.returns) ++ '\n' :: rest := by
  cases newline <;> simp [toText, returns]

/-- Every line feed of a text is the end of a newline of this kind. -/
def Ends (newline : Newline) (s : Text) : Prop :=
  ∀ before after, s = before ++ '\n' :: after →
    (before.getLast? = some '\r' ↔ newline = carriageReturnLineFeed)

/-- A line feed behind a line either ends this line or stands further on. -/
theorem feed_cases {before after : Text} (unbroken : Unbroken line)
    (split : line ++ '\n' :: rest = before ++ '\n' :: after) :
    before = line ∨ ∃ more, before = line ++ '\n' :: more ∧ rest = more ++ '\n' :: after := by
  rcases append_cons_cases split with ⟨more, rfl, tail⟩ | ⟨more, rfl, -⟩
  · cases more with
    | nil => exact Or.inl (List.append_nil line)
    | cons c others =>
        obtain ⟨rfl, later⟩ := List.cons.inj tail
        exact Or.inr ⟨others, rfl, later⟩
  · exact absurd (List.mem_append_right _ List.mem_cons_self) unbroken

theorem getLast?_append_feed (line more : Text) :
    (line ++ '\n' :: more).getLast? = some '\r' ↔ more.getLast? = some '\r' := by
  rw [List.getLast?_append, List.getLast?_cons]
  cases more.getLast? <;> simp

theorem ends_append_feed (unbroken : Unbroken line) :
    newline.Ends (line ++ '\n' :: rest) ↔
      (line.getLast? = some '\r' ↔ newline = carriageReturnLineFeed) ∧ newline.Ends rest := by
  constructor
  · intro ends
    refine ⟨ends line rest rfl, ?_⟩
    intro before after split
    rw [← getLast?_append_feed line before]
    exact ends (line ++ '\n' :: before) after (by simp [split])
  · rintro ⟨first, later⟩ before after split
    rcases feed_cases unbroken split with rfl | ⟨more, rfl, further⟩
    · exact first
    · rw [getLast?_append_feed]
      exact later more after further

theorem ends_nil (newline : Newline) : newline.Ends [] := by
  intro before after split
  simp at split

theorem Ends.newlineOf (ends : newline.Ends s) (ended : s.getLast? = some '\n') :
    Source.newlineOf s = newline := by
  obtain ⟨front, rfl⟩ := List.getLast?_eq_some_iff.1 ended
  have last := ends front [] rfl
  cases newline with
  | lineFeed =>
      have absent : ¬ ['\r', '\n'] <:+: front ++ ['\n'] := by
        rintro ⟨before, after, split⟩
        have return_ := ends (before ++ ['\r']) after (by simp [← split])
        simp at return_
      rw [Source.newlineOf, if_neg]
      rwa [Text.contains_iff]
  | carriageReturnLineFeed =>
      obtain ⟨before, rfl⟩ := List.getLast?_eq_some_iff.1 (last.2 rfl)
      rw [Source.newlineOf, if_pos]
      rw [Text.contains_iff]
      exact ⟨before, [], by simp⟩

/-- Of the two kinds of newlines a uniform text has one. -/
theorem exists_ends_iff (s : Text) :
    (∃ newline : Newline, newline.Ends s) ↔
      (∀ before after, s = before ++ '\n' :: after → before.getLast? = some '\r') ∨
        ∀ before after, s = before ++ '\n' :: after → before.getLast? ≠ some '\r' := by
  constructor
  · rintro ⟨newline, ends⟩
    cases newline with
    | lineFeed => exact Or.inr fun before after split last => by simpa using (ends _ _ split).1 last
    | carriageReturnLineFeed => exact Or.inl fun before after split => (ends _ _ split).2 rfl
  · rintro (all | none)
    · exact ⟨carriageReturnLineFeed, fun before after split => by simp [all before after split]⟩
    · exact ⟨lineFeed, fun before after split => by simp [none before after split]⟩

end Newline

namespace Source

variable {source : Source} {newline : Newline} {s : Text}

theorem content_cons (line : Text) (rest : List Text) (newline : Newline) (marked : Bool) :
    content ⟨line :: rest, newline, marked⟩ =
      (line ++ newline.returns) ++
        '\n' :: if rest = [] then [] else content ⟨rest, newline, marked⟩ := by
  rw [← Newline.append_toText]
  cases rest with
  | nil => simp [content, Text.join]
  | cons next others => simp [content, Text.join]

/-- What is written has one kind of newline. -/
theorem Faithful.ends_content (faithful : source.Faithful) :
    source.newline.Ends source.content := by
  obtain ⟨lines, newline, marked⟩ := source
  have unbroken := faithful.unbroken
  have noReturn := faithful.noReturn
  dsimp only at unbroken noReturn ⊢
  have line (line : Text) (inside : Unbroken line)
      (ends : newline = .lineFeed → line.getLast? ≠ some '\r') :
      Unbroken (line ++ newline.returns) ∧ ((line ++ newline.returns).getLast? = some '\r' ↔
        newline = .carriageReturnLineFeed) := by
    cases newline with
    | lineFeed => simpa [Newline.returns] using ⟨inside, ends rfl⟩
    | carriageReturnLineFeed =>
        simpa [Newline.returns] using inside.append (t := ['\r']) (by simp [Unbroken])
  clear faithful
  cases lines with
  | nil =>
      have empty := line [] (by simp [Unbroken]) (by simp)
      have ends : newline.Ends ([] ++ newline.returns ++ ['\n']) :=
        (Newline.ends_append_feed empty.1).2 ⟨empty.2, Newline.ends_nil _⟩
      rw [← Newline.append_toText] at ends
      simpa [content, Text.join] using ends
  | cons first rest =>
      induction rest generalizing first with
      | nil =>
          obtain ⟨inside, ends⟩ := line first (unbroken first (by simp))
            fun feed => noReturn feed first (by simp)
          rw [content_cons, if_pos rfl, Newline.ends_append_feed inside]
          exact ⟨ends, Newline.ends_nil _⟩
      | cons next others ih =>
          obtain ⟨inside, ends⟩ := line first (unbroken first (by simp))
            fun feed => noReturn feed first (by simp)
          rw [content_cons, if_neg (by simp), Newline.ends_append_feed inside]
          refine ⟨ends, ih next ?_ ?_⟩
          · intro other member
            exact unbroken other (List.mem_cons_of_mem _ member)
          · intro feed other member
            exact noReturn feed other (List.mem_cons_of_mem _ member)

theorem getLast?_content (source : Source) : source.content.getLast? = some '\n' := by
  rw [content, List.getLast?_append]
  cases source.newline <;> simp [Newline.toText]

/-- The line with the newline behind it, if this is the kind of newline it ends with. -/
theorem dropReturn_append_returns {line : Text}
    (ends : line.getLast? = some '\r' ↔ newline = .carriageReturnLineFeed) :
    dropReturn line ++ newline.returns = line := by
  cases newline with
  | lineFeed =>
      have noReturn : line.getLast? ≠ some '\r' := by simpa using ends
      simp [Newline.returns, Text.dropReturn_of_getLast?_ne noReturn]
  | carriageReturnLineFeed =>
      obtain ⟨start, rfl⟩ := List.getLast?_eq_some_iff.1 (ends.2 rfl)
      have found : Text.before? ['\r'] (start ++ ['\r']) = some start :=
        Text.before?_eq_some_iff.2 rfl
      simp [Newline.returns, dropReturn, found]

/-- A text of which every line ends with the newline is written as it was read. -/
theorem content_lines (marked : Bool) (ended : s.getLast? = some '\n') (ends : newline.Ends s) :
    content ⟨Text.lines s, newline, marked⟩ = s := by
  induction length : s.length using Nat.strongRecOn generalizing s with
  | ind n ih =>
      obtain ⟨line, rest, rfl, unbroken⟩ :=
        List.eq_append_cons_of_mem (List.mem_of_getLast? ended)
      obtain ⟨first, later⟩ := (Newline.ends_append_feed unbroken).1 ends
      rw [Text.lines_append_feed rest unbroken, content_cons, dropReturn_append_returns first]
      cases rest with
      | nil => simp [Text.lines]
      | cons c more =>
          have restEnded : (c :: more).getLast? = some '\n' := by
            simpa [List.getLast?_append, List.getLast?_cons] using ended
          have whole := ih (c :: more).length (by simp at length ⊢; omega) restEnded later rfl
          rw [if_neg (Text.lines_ne_nil (List.cons_ne_nil c more)), whole]

theorem parse_eq (s : Text) :
    parse s = ofUnmarked (decide (s.head? = some Text.byteOrderMark)) s.withoutMark := by
  cases s with
  | nil => rfl
  | cons c rest => by_cases mark : c = Text.byteOrderMark <;> simp [parse, Text.withoutMark, mark]

theorem mark_append_withoutMark (s : Text) :
    (if decide (s.head? = some Text.byteOrderMark) then [Text.byteOrderMark] else []) ++
      s.withoutMark = s := by
  cases s with
  | nil => rfl
  | cons c rest => by_cases mark : c = Text.byteOrderMark <;> simp [Text.withoutMark, mark]

theorem render_eq (source : Source) :
    source.render =
      (if source.marked then [Text.byteOrderMark] else []) ++ source.content := by
  rw [render, content, List.append_assoc]

theorem ends_of_newlineOf_eq_lineFeed (found : newlineOf s = .lineFeed) :
    Newline.Ends .lineFeed s := by
  intro before after split
  have noReturn : before.getLast? ≠ some '\r' := by
    intro last
    obtain ⟨start, rfl⟩ := List.getLast?_eq_some_iff.1 last
    rw [newlineOf, if_pos] at found
    · cases found
    · rw [Text.contains_iff]
      exact ⟨start, after, by simp [split]⟩
  simp [noReturn]

/-- What is read is written as it was exactly if all of its lines end, and all in the same way. -/
theorem render_parse_eq_iff (s : Text) : (parse s).render = s ↔ s.withoutMark.Uniform := by
  have split := mark_append_withoutMark s
  have written : (parse s).render = s ↔ (parse s).content = s.withoutMark := by
    rw [render_eq, parse_eq]
    constructor
    · intro same
      exact List.append_cancel_left (same.trans split.symm)
    · intro same
      rw [same]
      exact split
  rw [written]
  constructor
  · intro same
    have ends : (parse s).newline.Ends (parse s).content := by
      cases found : (parse s).newline with
      | lineFeed =>
          rw [same]
          rw [parse_eq] at found
          exact ends_of_newlineOf_eq_lineFeed found
      | carriageReturnLineFeed =>
          obtain ⟨unbroken, unmarked⟩ := parse_spec s
          have faithful : (parse s).Faithful := ⟨unbroken, by simp [found], unmarked⟩
          have ends := faithful.ends_content
          rwa [found] at ends
    rw [same] at ends
    refine ⟨?_, (Newline.exists_ends_iff _).1 ⟨_, ends⟩⟩
    rw [← same]
    exact getLast?_content _
  · rintro ⟨ended, alike⟩
    obtain ⟨newline, ends⟩ := (Newline.exists_ends_iff _).2 alike
    rw [parse_eq, ofUnmarked, ends.newlineOf ended]
    exact content_lines _ ended ends

/-- What is written is read as it was, if there is a line and each line ends where its newline
stands. -/
theorem parse_render (faithful : source.Faithful) (nonempty : source.lines ≠ []) :
    parse source.render = source := by
  have lines := lines_parse_render faithful
  have newline := faithful.ends_content.newlineOf (getLast?_content source)
  rw [if_neg nonempty] at lines
  have head : source.render.head? = some Text.byteOrderMark ↔ source.marked = true := by
    rw [render_eq]
    cases marked : source.marked with
    | true => simp
    | false => simpa using head?_content (faithful.unmarked marked)
  have behind : source.render.withoutMark = source.content := by
    have whole := (mark_append_withoutMark source.render).trans (render_eq source)
    simp only [head, Bool.decide_eq_true] at whole
    exact List.append_cancel_left whole
  rw [parse_eq, behind] at lines ⊢
  obtain ⟨lines', newline', marked'⟩ := source
  simp only [ofUnmarked] at lines ⊢
  simp [lines, newline, head]

/-- Reading and writing a source are inverse to each other where its lines all end in one way. -/
theorem writes_what_it_reads :
    (∀ s : Text, (parse s).render = s ↔ s.withoutMark.Uniform) ∧
      ∀ source : Source, source.lines ≠ [] → source.Faithful → parse source.render = source :=
  ⟨render_parse_eq_iff, fun _ nonempty faithful => parse_render faithful nonempty⟩

namespace Sample

/-- A marked source with an empty line and a line that holds a carriage return. -/
def returned : Source where
  lines := ["using\rSystem;".toList, [], [Text.byteOrderMark]]
  newline := .lineFeed
  marked := true

theorem faithful_returned : returned.Faithful := by
  refine ⟨?_, ?_, ?_⟩
  · simp [returned, Unbroken, Text.byteOrderMark]
  · simp [returned, Text.byteOrderMark]
  · simp [returned]

end Sample

theorem writes_what_it_reads_sample :
    (parse Sample.returned.render = Sample.returned) ∧
      (parse Sample.returned.render).render = Sample.returned.render := by
  have read := writes_what_it_reads.2 Sample.returned (by decide) Sample.faithful_returned
  exact ⟨read, congrArg render read⟩

end Source

end MigrationSquash
