import MigrationSquash.Proofs.Arguments.Marks
import MigrationSquash.Proofs.Hazard.Context

/-!
# Calls and the scan of their lines

A call is divided by a walk over the whole text, while what is code is read off the scan of single
lines, at the end of which no string and no character literal stays open.  Main statement: the two
agree on a call, on what is code and so on brackets, separators and the end, exactly if no backslash
in a literal of the call takes a line feed along.
-/

set_option autoImplicit false

namespace MigrationSquash.Code

open Text (width)

/-! ## Where the two readings part -/

/-- A backslash in a literal takes the next character along. -/
def Mode.isEscape : Mode → Bool
  | .stringEscape | .characterEscape => true
  | _ => false

section Readings

variable {mode : Mode} {depth : Nat} {c : Char} {s before after : Text}

theorem past_eq_next (kept : c = '\n' → mode.isEscape = false) : mode.past c = mode.next c := by
  cases mode with
  | stringEscape =>
      exact (Mode.stringEscape.next_of_ne fun feed => Bool.noConfusion (kept feed)).symm
  | characterEscape =>
      exact (Mode.characterEscape.next_of_ne fun feed => Bool.noConfusion (kept feed)).symm
  | _ => rfl

/-- Inside a call no character that is code for one reading is none for the other. -/
def Alike (mode : Mode) (depth : Nat) (s : Text) : Prop :=
  ∀ before c after, s = before ++ c :: after → nestBehind? Mode.past mode depth before ≠ none →
    (before.foldl Mode.past mode).isCode = (mode.read before).isCode

/-- Inside a call no backslash takes along a line feed that something follows. -/
def KeepsFeeds (mode : Mode) (depth : Nat) (s : Text) : Prop :=
  ∀ before c after, s = before ++ '\n' :: c :: after →
    nestBehind? Mode.past mode depth before ≠ none → (mode.read before).isEscape = false

theorem nestBehind?_cons_ne_none {next : Mode → Char → Mode} {more : Text} :
    nestBehind? next mode depth (c :: more) ≠ none ↔
      ∃ inner, nestAt? mode depth c = some inner ∧
        nestBehind? next (next mode c) inner more ≠ none := by
  rw [nestBehind?]
  cases nestAt? mode depth c <;> simp

theorem alike_cons_iff :
    Alike mode depth (c :: s) ↔
      (s ≠ [] → c = '\n' → mode.isEscape = false) ∧
        ∀ inner, nestAt? mode depth c = some inner → Alike (mode.next c) inner s := by
  constructor
  · intro alike
    have kept : s ≠ [] → c = '\n' → mode.isEscape = false := by
      rintro more rfl
      obtain ⟨d, rest, rfl⟩ := List.exists_cons_of_ne_nil more
      cases mode with
      | stringEscape | characterEscape => cases alike ['\n'] d rest rfl nofun
      | _ => rfl
    refine ⟨kept, fun inner here before d after split within => ?_⟩
    have same : mode.past c = mode.next c := past_eq_next (kept (by simp [split]))
    have later := alike (c :: before) d after (by rw [split]; rfl)
      (nestBehind?_cons_ne_none.2 ⟨inner, here, by rwa [same]⟩)
    rwa [List.foldl_cons, same] at later
  · rintro ⟨kept, later⟩ before d after split within
    cases before with
    | nil => rfl
    | cons e more =>
        obtain ⟨rfl, rfl⟩ := List.cons.inj split
        have same : mode.past c = mode.next c := past_eq_next (kept (by simp))
        obtain ⟨inner, here, further⟩ := nestBehind?_cons_ne_none.1 within
        rw [same] at further
        rw [List.foldl_cons, same]
        exact later inner here more d after rfl further

theorem keepsFeeds_cons_iff :
    KeepsFeeds mode depth (c :: s) ↔
      (s ≠ [] → c = '\n' → mode.isEscape = false) ∧
        ∀ inner, nestAt? mode depth c = some inner → KeepsFeeds (mode.next c) inner s := by
  constructor
  · intro keeps
    have kept : s ≠ [] → c = '\n' → mode.isEscape = false := by
      rintro more rfl
      obtain ⟨d, rest, rfl⟩ := List.exists_cons_of_ne_nil more
      exact keeps [] d rest rfl nofun
    refine ⟨kept, fun inner here before d after split within => ?_⟩
    have same : mode.past c = mode.next c := past_eq_next (kept (by simp [split]))
    exact keeps (c :: before) d after (by rw [split]; rfl)
      (nestBehind?_cons_ne_none.2 ⟨inner, here, by rwa [same]⟩)
  · rintro ⟨kept, later⟩ before d after split within
    cases before with
    | nil =>
        obtain ⟨rfl, rfl⟩ := List.cons.inj split
        exact kept (List.cons_ne_nil _ _) rfl
    | cons e more =>
        obtain ⟨rfl, rfl⟩ := List.cons.inj split
        have same : mode.past c = mode.next c := past_eq_next (kept (by simp))
        obtain ⟨inner, here, further⟩ := nestBehind?_cons_ne_none.1 within
        rw [same] at further
        exact later inner here more d after rfl further

/-- The readings part where a backslash takes a line feed along, and nowhere else. -/
theorem alike_iff_keepsFeeds : Alike mode depth s ↔ KeepsFeeds mode depth s := by
  induction s generalizing mode depth with
  | nil => simp [Alike, KeepsFeeds]
  | cons c rest ih => rw [alike_cons_iff, keepsFeeds_cons_iff]; simp only [ih]

theorem KeepsFeeds.read_eq (keeps : KeepsFeeds mode depth (before ++ c :: after))
    (within : nestBehind? Mode.past mode depth before ≠ none) :
    before.foldl Mode.past mode = mode.read before ∧
      nestBehind? Mode.past mode depth before = nestBehind? Mode.next mode depth before := by
  induction before generalizing mode depth with
  | nil => exact ⟨rfl, rfl⟩
  | cons d more ih =>
      obtain ⟨kept, later⟩ := keepsFeeds_cons_iff.1 keeps
      have same : mode.past d = mode.next d := past_eq_next (kept (by simp))
      obtain ⟨inner, here, further⟩ := nestBehind?_cons_ne_none.1 within
      rw [same] at further
      obtain ⟨modes, depths⟩ := ih (later inner here) further
      rw [List.foldl_cons, same, nestBehind?, nestBehind?, here, same]
      exact ⟨modes, depths⟩

instance decidableKeepsFeeds : ∀ mode depth s, Decidable (KeepsFeeds mode depth s)
  | _, _, [] => isTrue fun before _ _ split => by simp at split
  | mode, depth, c :: s =>
      match here : nestAt? mode depth c with
      | none => decidable_of_iff (s ≠ [] → c = '\n' → mode.isEscape = false) (by
          rw [keepsFeeds_cons_iff, here]
          simp)
      | some inner =>
          have := decidableKeepsFeeds (mode.next c) inner s
          decidable_of_iff ((s ≠ [] → c = '\n' → mode.isEscape = false) ∧
            KeepsFeeds (mode.next c) inner s) (by
              rw [keepsFeeds_cons_iff, here]
              simp)

end Readings

/-! ## Calls in a text -/

section Calls

variable {front inside before after place : Text} {mode : Mode} {depth inner : Nat} {c : Char}

/-- The marks by which the call is divided whose opening parenthesis stands behind `front`. -/
def callMarks (front inside : Text) : List Mark := (division .code 0 (width front + 1) inside).marks

theorem arguments?_eq_division (front inside : Text) :
    arguments? (front ++ '(' :: inside) (width front) =
      (division .code 0 (width front + 1) inside).segments.map fun segments =>
        ((segments.first :: segments.others).filterMap argument?, segments.stop) := by
  rw [arguments?_append, argumentsFrom?, segments_division]

/-- Where `before` ends in a call is not behind the end of the call. -/
def Within (front inside before : Text) : Prop :=
  ∀ given stop, arguments? (front ++ '(' :: inside) (width front) = some (given, stop) →
    width (front ++ '(' :: before) < stop

/-- How many brackets of code are open behind a text that follows `place`, where `depth` are. -/
def openBrackets : Text → Nat → Text → Nat
  | _, depth, [] => depth
  | place, depth, c :: rest =>
      openBrackets (place ++ [c]) (if IsCode place then nest depth c else depth) rest

theorem trace_call (front inside : Text) :
    trace Mode.past .code 0 (width front + 1) inside =
      ⟨callMarks front inside,
        (arguments? (front ++ '(' :: inside) (width front)).map (·.2)⟩ := by
  rw [arguments?_eq_division, Option.map_map, callMarks]
  exact (trace_division .code 0 (width front + 1) inside).symm

theorem width_place (front before : Text) :
    width (front ++ '(' :: before) = width front + 1 + width before := by
  rw [Text.width_append, Text.width_cons, Nat.add_assoc]
  rfl

theorem within_iff (split : inside = before ++ c :: after) :
    Within front inside before ↔ nestBehind? Mode.past .code 0 before ≠ none := by
  subst split
  rw [← lt_stop_iff (width front + 1), trace_call, Within, width_place]
  simp only [Option.map_eq_some_iff]
  constructor
  · rintro within stop ⟨⟨given, _⟩, found, rfl⟩
    exact within given _ found
  · intro within given stop found
    exact within stop ⟨_, found, rfl⟩

theorem openBrackets_eq (reads : Mode.code.read place = mode)
    (further : nestBehind? Mode.next mode depth before = some inner) :
    openBrackets place depth before = inner := by
  induction before generalizing place mode depth with
  | nil => exact Option.some.inj further
  | cons c rest ih =>
      obtain ⟨outer, here, later⟩ := Option.bind_eq_some_iff.1 further
      have nested : (if IsCode place then nest depth c else depth) = outer := by
        unfold nestAt? at here
        by_cases inCode : mode.isCode = true
        · rw [if_pos inCode] at here
          rw [if_pos (isCode_iff.2 (reads ▸ inCode))]
          split at here
          · cases here
          · exact Option.some.inj here
        · rw [if_neg inCode] at here
          rw [if_neg fun code => inCode (reads ▸ isCode_iff.1 code)]
          exact Option.some.inj here
      rw [openBrackets, nested]
      apply ih _ later
      rw [Mode.read_append, reads]
      rfl

/-- Behind an opening parenthesis in code the scan is as at the start of a text. -/
theorem read_call (code : IsCode front) (before : Text) :
    Mode.code.read (front ++ '(' :: before) = Mode.code.read before := by
  have inCode := isCode_iff.1 code
  have opens : (Mode.code.read front).next '(' = .code := by
    generalize Mode.code.read front = mode at inCode
    cases mode <;> first | rfl | cases inCode
  rw [Mode.read_append, Mode.read_cons, opens]

theorem nestBehind?_append {next : Mode → Char → Mode} (more : Text) :
    nestBehind? next mode depth (before ++ more) =
      (nestBehind? next mode depth before).bind fun inner =>
        nestBehind? next (before.foldl next mode) inner more := by
  induction before generalizing mode depth with
  | nil => rfl
  | cons c rest ih =>
      rw [List.cons_append, nestBehind?, nestBehind?, Option.bind_assoc]
      exact Option.bind_congr fun inner _ => ih

/-- What a call is to the scan of the lines that it stands in, and to its division. -/
structure FollowsScan (front inside : Text) : Prop where
  /-- The characters up to the end of the call are code to both or to neither. -/
  alike : ∀ before c after, inside = before ++ c :: after → Within front inside before →
    ((before.foldl Mode.past .code).isCode = true ↔ IsCode (front ++ '(' :: before))
  inCode : ∀ mark ∈ callMarks front inside, InCode (front ++ '(' :: inside) mark.offset
  /-- Up to the end of the call each bracket in code is treated as one, and each comma in code that
  stands in no inner bracket separates. -/
  treated : ∀ before c after, inside = before ++ c :: after →
    (⟨width (front ++ '(' :: before), c⟩ ∈ callMarks front inside ↔
      Within front inside before ∧ IsCode (front ++ '(' :: before) ∧
        divides (openBrackets (front ++ ['(']) 0 before) c = true)
  closing : ∀ given stop,
    arguments? (front ++ '(' :: inside) (width front) = some (given, stop) →
    ∃ before after, inside = before ++ ')' :: after ∧ stop = width (front ++ '(' :: before) + 1 ∧
      IsCode (front ++ '(' :: before) ∧ openBrackets (front ++ ['(']) 0 before = 0
  unclosed : arguments? (front ++ '(' :: inside) (width front) = none →
    ∀ before after, inside = before ++ ')' :: after → IsCode (front ++ '(' :: before) →
      openBrackets (front ++ ['(']) 0 before ≠ 0

/-- No backslash in a literal takes along a line feed that is followed by more of the call. -/
def NoEscapedFeed (front inside : Text) : Prop :=
  ∀ before c after, inside = before ++ '\n' :: c :: after → Within front inside before →
    (Mode.code.read (front ++ '(' :: before)).isEscape = false

theorem noEscapedFeed_iff (code : IsCode front) :
    NoEscapedFeed front inside ↔ KeepsFeeds .code 0 inside := by
  simp only [NoEscapedFeed, KeepsFeeds, read_call code]
  constructor
  · intro kept before c after split within
    exact kept before c after split ((within_iff split).2 within)
  · intro keeps before c after split within
    exact keeps before c after split ((within_iff split).1 within)

theorem alike_iff (code : IsCode front) :
    (∀ before c after, inside = before ++ c :: after → Within front inside before →
      ((before.foldl Mode.past .code).isCode = true ↔ IsCode (front ++ '(' :: before))) ↔
      Alike .code 0 inside := by
  simp only [Alike, isCode_iff, read_call code, Bool.coe_iff_coe]
  constructor
  · intro same before c after split within
    exact same before c after split ((within_iff split).2 within)
  · intro alike before c after split within
    exact alike before c after split ((within_iff split).1 within)

/-- Texts of one width that the same text starts with are the same. -/
theorem eq_of_width_eq {left right more rest : Text} (same : left ++ more = right ++ rest)
    (wide : width left = width right) : left = right := by
  have cut := Text.splitAtByte_width_append left more
  rw [same, wide, Text.splitAtByte_width_append] at cut
  exact (Prod.mk.inj cut).1.symm

/-- What the scan makes of a place in a call that keeps its line feeds. -/
theorem KeepsFeeds.agrees (keeps : KeepsFeeds .code 0 (before ++ c :: after)) (code : IsCode front)
    (further : nestBehind? Mode.past .code 0 before = some inner) :
    ((before.foldl Mode.past .code).isCode = true ↔ IsCode (front ++ '(' :: before)) ∧
      openBrackets (front ++ ['(']) 0 before = inner := by
  have within : nestBehind? Mode.past .code 0 before ≠ none := by simp [further]
  obtain ⟨modes, depths⟩ := keeps.read_eq within
  constructor
  · rw [modes, isCode_iff, read_call code]
  · exact openBrackets_eq (read_call code []) (depths ▸ further)

theorem mem_callMarks_iff (code : IsCode front) (keeps : KeepsFeeds .code 0 inside)
    (split : inside = before ++ c :: after) :
    ⟨width (front ++ '(' :: before), c⟩ ∈ callMarks front inside ↔
      Within front inside before ∧ IsCode (front ++ '(' :: before) ∧
        divides (openBrackets (front ++ ['(']) 0 before) c = true := by
  have marks : callMarks front inside = (trace Mode.past .code 0 (width front + 1) inside).marks := by
    rw [trace_call]
  rw [marks, mem_trace_iff, within_iff split, width_place]
  subst split
  constructor
  · rintro ⟨other, later, inner, same, place, further, inCode, divided⟩
    obtain rfl : before = other := eq_of_width_eq same (Nat.add_left_cancel place)
    obtain ⟨agree, depth⟩ := keeps.agrees code further
    refine ⟨by simp [further], agree.1 inCode, ?_⟩
    rw [depth]
    exact divided
  · rintro ⟨within, isCode, divided⟩
    obtain ⟨inner, further⟩ := Option.ne_none_iff_exists'.1 within
    obtain ⟨agree, depth⟩ := keeps.agrees code further
    rw [depth] at divided
    exact ⟨before, after, inner, rfl, rfl, further, agree.2 isCode, divided⟩

theorem exists_closing (code : IsCode front) (keeps : KeepsFeeds .code 0 inside)
    {given : List Argument} {stop : Nat}
    (found : arguments? (front ++ '(' :: inside) (width front) = some (given, stop)) :
    ∃ before after, inside = before ++ ')' :: after ∧ stop = width (front ++ '(' :: before) + 1 ∧
      IsCode (front ++ '(' :: before) ∧ openBrackets (front ++ ['(']) 0 before = 0 := by
  have stops := congrArg Trace.stop (trace_call front inside)
  rw [found] at stops
  have closed : nestBehind? Mode.past .code 0 inside = none := by
    by_contra unclosed
    rw [stop_eq_none_iff.2 unclosed] at stops
    cases stops
  obtain ⟨before, after, rfl, further, inCode, last⟩ :=
    stop_append_of_none (width front + 1) [] closed
  rw [List.append_nil, stops] at last
  obtain ⟨agree, depth⟩ := keeps.agrees code further
  refine ⟨before, after, rfl, ?_, agree.1 inCode, depth⟩
  rw [width_place]
  exact Option.some.inj last

theorem openBrackets_ne_zero (code : IsCode front)
    (keeps : KeepsFeeds .code 0 (before ++ ')' :: after))
    (unclosed : arguments? (front ++ '(' :: (before ++ ')' :: after)) (width front) = none)
    (isCode : IsCode (front ++ '(' :: before)) : openBrackets (front ++ ['(']) 0 before ≠ 0 := by
  intro nothing
  have stops := congrArg Trace.stop (trace_call front (before ++ ')' :: after))
  rw [unclosed] at stops
  have reached := stop_eq_none_iff.1 stops
  rw [nestBehind?_append] at reached
  cases further : nestBehind? Mode.past .code 0 before with
  | none => exact reached (by rw [further]; rfl)
  | some inner =>
      obtain ⟨agree, depth⟩ := keeps.agrees code further
      have closes : nestAt? (before.foldl Mode.past .code) 0 ')' = none :=
        nestAt?_eq_none_iff.2 ⟨agree.2 isCode, rfl, rfl⟩
      rw [further, ← depth, nothing, Option.bind_some, nestBehind?, closes] at reached
      exact reached rfl

/-- A call is divided by what the scan takes for code exactly if it keeps its line feeds. -/
theorem followsScan_iff (code : IsCode front) :
    FollowsScan front inside ↔ NoEscapedFeed front inside := by
  constructor
  · intro follows
    exact (noEscapedFeed_iff code).2 (alike_iff_keepsFeeds.1 ((alike_iff code).1 follows.alike))
  · intro kept
    have keeps := (noEscapedFeed_iff code).1 kept
    constructor
    · exact (alike_iff code).2 (alike_iff_keepsFeeds.2 keeps)
    · intro mark member
      have found : mark ∈ (trace Mode.past .code 0 (width front + 1) inside).marks := by
        rwa [trace_call]
      obtain ⟨before, after, inner, rfl, place, further, inCode, -⟩ := mem_trace_iff.1 found
      refine ⟨front ++ '(' :: before, mark.char :: after, by simp, ?_, ?_⟩
      · rw [width_place, place]
      · exact (keeps.agrees code further).1.1 inCode
    · intro before c after split
      exact mem_callMarks_iff code keeps split
    · intro given stop found
      exact exists_closing code keeps found
    · rintro unclosed before after rfl isCode
      exact openBrackets_ne_zero code keeps unclosed isCode

namespace Sample

/-- The arguments of a call: strings with an escape and over two lines, a character, another call. -/
def spread : Text := "\"\\\"(\", @\"a)\n\"\"b\", ')', f(1, // 2\n [3])); Run();".toList

theorem noEscapedFeed_spread : NoEscapedFeed "b.Sql".toList spread :=
  (noEscapedFeed_iff (by decide)).2 (by decide)

end Sample

theorem followsScan_spread :
    IsCode "b.Sql".toList ∧ FollowsScan "b.Sql".toList Sample.spread :=
  ⟨by decide, (followsScan_iff (by decide)).2 Sample.noEscapedFeed_spread⟩

/-- A line feed that is taken along hides the parenthesis that closes the call on the next line. -/
theorem not_followsScan_of_escapedFeed :
    IsCode "f".toList ∧ arguments? "f(\"a\\\n)".toList 1 = none ∧
      IsCode "f(\"a\\\n".toList ∧ openBrackets "f(".toList 0 "\"a\\\n".toList = 0 ∧
      ¬ FollowsScan "f".toList "\"a\\\n)".toList := by
  refine ⟨by decide, by decide, by decide, by decide, fun follows => ?_⟩
  exact follows.unclosed (by decide) "\"a\\\n".toList [] rfl (by decide) (by decide)

end Calls

end MigrationSquash.Code
