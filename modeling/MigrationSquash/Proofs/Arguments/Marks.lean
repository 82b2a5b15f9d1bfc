import MigrationSquash.Code.Arguments
import MigrationSquash.Proofs.Scan.Reading

/-!
# Marks of a call

The division of a call into arguments goes by marks: brackets, the commas outside of inner brackets
and the parenthesis that closes the call.  Main statement: the marks by which a call is divided are
those that a walk over its characters finds, which reads them like the scan of its lines except that
a backslash in a literal takes a line feed along like any other character; and a mark is a character
of code that is a bracket or separates, up to the first closing parenthesis outside of inner
brackets.
-/

set_option autoImplicit false

namespace MigrationSquash.Code

open Text (width)

/-- A character of code that matters for the division of a call, and where it stands. -/
structure Mark where
  offset : Nat
  char : Char
  deriving DecidableEq, Repr

/-- A division into segments with the marks that it goes by. -/
structure Division where
  marks : List Mark
  segments : Option Segments
  deriving DecidableEq, Repr

namespace Division

def mark (mark : Mark) (division : Division) : Division :=
  { division with marks := mark :: division.marks }

def write (s : Text) (division : Division) : Division :=
  { division with segments := division.segments.map (.write s) }

def divide (division : Division) : Division :=
  { division with segments := division.segments.map .divide }

end Division

/-- Brackets of one kind may close those of another. -/
def isBracket (c : Char) : Bool :=
  c = '(' || c = '[' || c = '{' || c = ')' || c = ']' || c = '}'

/-- How many brackets are open behind a character of code. -/
def nest (depth : Nat) (c : Char) : Nat :=
  if c = '(' || c = '[' || c = '{' then depth + 1
  else if c = ')' || c = ']' || c = '}' then depth - 1
  else depth

/-- The division of the rest of a call that notes each bracket, separator and closing parenthesis
where it is acted on. -/
def division : Context → Nat → Nat → Text → Division
  | _, _, _, [] => ⟨[], none⟩
  | .code, depth, offset, '/' :: '/' :: rest => division .lineComment depth (offset + 2) rest
  | .code, depth, offset, '/' :: '*' :: rest => division .blockComment depth (offset + 2) rest
  | .code, depth, offset, '@' :: '"' :: rest =>
      (division .verbatim depth (offset + 2) rest).write ['@', '"']
  | .code, depth, offset, '@' :: '$' :: '"' :: rest =>
      (division .verbatim depth (offset + 3) rest).write ['@', '$', '"']
  | .code, 0, offset, ')' :: _ => ⟨[⟨offset, ')'⟩], some ⟨[], [], offset + 1⟩⟩
  | .code, 0, offset, ',' :: rest => (division .code 0 (offset + 1) rest).divide.mark ⟨offset, ','⟩
  | .code, depth, offset, c :: rest =>
      let context :=
        if c = '"' then .string else if c = '\'' then .character else .code
      let later := (division context (nest depth c) (offset + c.utf8Size) rest).write [c]
      if isBracket c then later.mark ⟨offset, c⟩ else later
  | .lineComment, depth, offset, c :: rest =>
      if c = '\n' then (division .code depth (offset + 1) rest).write [c]
      else division .lineComment depth (offset + c.utf8Size) rest
  | .blockComment, depth, offset, '*' :: '/' :: rest => division .code depth (offset + 2) rest
  | .blockComment, depth, offset, c :: rest =>
      division .blockComment depth (offset + c.utf8Size) rest
  | .verbatim, depth, offset, '"' :: '"' :: rest =>
      (division .verbatim depth (offset + 2) rest).write ['"', '"']
  | .verbatim, depth, offset, c :: rest =>
      (division (if c = '"' then .code else .verbatim) depth (offset + c.utf8Size) rest).write [c]
  | .string, depth, offset, '\\' :: c :: rest =>
      (division .string depth (offset + 1 + c.utf8Size) rest).write ['\\', c]
  | .string, depth, offset, c :: rest =>
      (division (if c = '"' || c = '\n' then .code else .string) depth (offset + c.utf8Size)
        rest).write [c]
  | .character, depth, offset, '\\' :: c :: rest =>
      (division .character depth (offset + 1 + c.utf8Size) rest).write ['\\', c]
  | .character, depth, offset, c :: rest =>
      (division (if c = '\'' || c = '\n' then .code else .character) depth
        (offset + c.utf8Size) rest).write [c]

/-- To note the marks changes nothing about the segments. -/
theorem segments_division (context : Context) (depth offset : Nat) (s : Text) :
    (division context depth offset s).segments = segments? context depth offset s := by
  fun_induction division context depth offset s with
  | case1 => rfl
  | case2 _ _ _ ih | case3 _ _ _ ih | case12 _ _ _ ih => exact ih
  | case4 _ _ _ ih | case5 _ _ _ ih | case14 _ _ _ ih | case16 _ _ _ _ ih | case18 _ _ _ _ ih =>
      exact congrArg (Option.map _) ih
  | case6 => rfl
  | case7 _ _ ih => exact congrArg (Option.map Segments.divide) ih
  | case8 _ _ _ _ noLine noBlock noVerbatim noLeft noClosing noComma _ _ _ ih
  | case9 _ _ _ _ noLine noBlock noVerbatim noLeft noClosing noComma _ _ _ ih =>
      rw [segments?]
      · exact congrArg (Option.map _) ih
      all_goals assumption
  | case10 _ _ _ ih =>
      rw [segments?, if_pos rfl]
      exact congrArg (Option.map _) ih
  | case11 _ _ _ _ noFeed ih => rw [segments?, if_neg noFeed, ih]
  | case13 _ _ _ _ noEnd ih =>
      rw [segments?]
      · exact ih
      · exact noEnd
  | case15 _ _ _ _ noQuote ih =>
      rw [segments?]
      · exact congrArg (Option.map _) ih
      · exact noQuote
  | case17 _ _ _ _ noEscape ih | case19 _ _ _ _ noEscape ih =>
      rw [segments?]
      · exact congrArg (Option.map _) ih
      · exact noEscape

/-! ## The walk over the characters -/

/-- The mode after a character of a call.  Unlike at the end of a line that is scanned, what a
backslash takes along may be a line feed. -/
def Mode.past : Mode → Char → Mode
  | .stringEscape, _ => .string
  | .characterEscape, _ => .character
  | mode, c => mode.next c

/-- The marks of the rest of a call, and the offset just past it. -/
structure Trace where
  marks : List Mark
  stop : Option Nat
  deriving DecidableEq, Repr

def Trace.mark (mark : Mark) (trace : Trace) : Trace := { trace with marks := mark :: trace.marks }

/-- Whether a character of code is a mark; commas separate outside of inner brackets only. -/
def divides (depth : Nat) (c : Char) : Bool := isBracket c || depth = 0 && c = ','

/-- What a walk over the rest of a call finds, by the way that it reads characters. -/
def trace (next : Mode → Char → Mode) : Mode → Nat → Nat → Text → Trace
  | _, _, _, [] => ⟨[], none⟩
  | mode, depth, offset, c :: rest =>
      if mode.isCode then
        if depth = 0 && c = ')' then ⟨[⟨offset, c⟩], some (offset + 1)⟩
        else
          let later := trace next (next mode c) (nest depth c) (offset + c.utf8Size) rest
          if divides depth c then later.mark ⟨offset, c⟩ else later
      else trace next (next mode c) depth (offset + c.utf8Size) rest

/-- What is left of a division without the texts of its segments. -/
def Division.trace (division : Division) : Trace :=
  ⟨division.marks, division.segments.map (·.stop)⟩

namespace Division

variable (m : Mark) (s : Text) (division : Division)

@[simp] theorem trace_mark : (division.mark m).trace = division.trace.mark m := rfl

@[simp] theorem trace_write : (division.write s).trace = division.trace := by
  simp [trace, write, Function.comp_def, Segments.write]

@[simp] theorem trace_divide : division.divide.trace = division.trace := by
  simp [trace, divide, Function.comp_def, Segments.divide]

end Division

section Trace

variable {next : Mode → Char → Mode} {mode other : Mode} {depth offset : Nat} {c : Char} {s : Text}

/-- A character that is no code leaves no trace. -/
theorem trace_outside (outside : mode.isCode = false) :
    trace next mode depth offset (c :: s) =
      trace next (next mode c) depth (offset + c.utf8Size) s := by
  rw [trace, outside]
  rfl

/-- Nor does a character of code that divides nothing. -/
theorem trace_plain (plain : (!divides 0 c) = true) :
    trace next mode depth offset (c :: s) =
      trace next (next mode c) depth (offset + c.utf8Size) s := by
  simp only [divides, isBracket, Bool.not_eq_true', Bool.or_eq_false_iff, decide_true,
    Bool.true_and, decide_eq_false_iff_not] at plain
  simp [trace, divides, nest, isBracket, plain]

/-- What a text leaves that holds no mark is the mode behind it. -/
theorem trace_append (lexeme : Text) {behind : Mode} {stop : Nat}
    (quiet : lexeme.all (fun c => !divides 0 c) = true)
    (reaches : lexeme.foldl next mode = behind) (stops : offset + width lexeme = stop) :
    trace next mode depth offset (lexeme ++ s) = trace next behind depth stop s := by
  induction lexeme generalizing mode offset with
  | nil =>
      subst reaches stops
      rfl
  | cons c rest ih =>
      simp only [List.all_cons, Bool.and_eq_true] at quiet
      rw [List.cons_append, trace_plain quiet.1]
      apply ih quiet.2 reaches
      rw [← stops, Text.width_cons, Nat.add_assoc]

/-- Modes that agree on the next character leave the same trace. -/
theorem trace_congr (code : mode.isCode = other.isCode)
    (step : ∀ c rest, s = c :: rest → next mode c = next other c) :
    trace next mode depth offset s = trace next other depth offset s := by
  cases s with
  | nil => rfl
  | cons c rest => rw [trace, trace, code, step c rest rfl]

end Trace

section Lexemes

variable {depth offset : Nat} {c : Char} {s : Text}

theorem past_of_isCode {mode : Mode} (inCode : mode.isCode = true) (c : Char) :
    mode.past c = mode.next c := by
  cases mode <;> first | rfl | cases inCode

/-- What may be the beginning of a lexeme leaves no trace if it is none. -/
theorem trace_beginning {mode : Mode} (inCode : mode.isCode = true)
    (step : ∀ c rest, s = c :: rest → c ≠ '\n' → mode.step c = Mode.ofCode c) :
    trace Mode.past mode depth offset s = trace Mode.past .code depth offset s := by
  refine trace_congr inCode fun c rest split => ?_
  rw [past_of_isCode inCode, past_of_isCode rfl]
  by_cases feed : c = '\n'
  · subst feed
    rw [Mode.next_feed, Mode.next_feed, Mode.carry_of_isCode inCode]
    rfl
  · rw [mode.next_of_ne feed, Mode.code.next_of_ne feed]
    exact step c rest split feed

theorem trace_afterAt (noString : ∀ rest, s ≠ '"' :: rest)
    (noDollar : ∀ rest, s ≠ '$' :: '"' :: rest) :
    trace Mode.past .afterAt depth offset s = trace Mode.past .code depth offset s := by
  rcases s with - | ⟨c, rest⟩
  · rfl
  by_cases dollar : c = '$'
  · subst dollar
    rw [trace_plain rfl, trace_plain rfl]
    apply trace_beginning rfl
    rintro c rest rfl -
    exact if_neg fun quote => noDollar rest (by rw [quote])
  · apply trace_beginning rfl
    rintro d more split -
    obtain ⟨rfl, rfl⟩ := List.cons.inj split
    exact (if_neg fun quote => noString rest (by rw [quote])).trans (if_neg dollar)

theorem trace_ofCode (noLine : ∀ rest, c = '/' → s ≠ '/' :: rest)
    (noBlock : ∀ rest, c = '/' → s ≠ '*' :: rest) (noVerbatim : ∀ rest, c = '@' → s ≠ '"' :: rest)
    (noInterpolated : ∀ rest, c = '@' → s ≠ '$' :: '"' :: rest) :
    trace Mode.past (Mode.ofCode c) depth offset s =
      trace Mode.past (if c = '"' then .string else if c = '\'' then .character else .code)
        depth offset s := by
  by_cases slash : c = '/'
  · subst slash
    apply trace_beginning rfl
    rintro d more split -
    exact (if_neg fun same => noLine more rfl (by rw [split, same])).trans
      (if_neg fun same => noBlock more rfl (by rw [split, same]))
  · by_cases sign : c = '@'
    · subst sign
      exact trace_afterAt (fun rest => noVerbatim rest rfl) (fun rest => noInterpolated rest rfl)
    · rw [Mode.ofCode, if_neg slash, if_neg sign]

theorem past_code (c : Char) : Mode.code.past c = Mode.ofCode c := by
  by_cases feed : c = '\n'
  · subst feed
    rfl
  · exact Mode.code.next_of_ne feed

theorem trace_afterQuote (noQuote : ∀ rest, s ≠ '"' :: rest) :
    trace Mode.past .afterQuote depth offset s = trace Mode.past .code depth offset s := by
  apply trace_beginning rfl
  rintro d more split -
  exact if_neg fun same => noQuote more (by rw [split, same])

theorem trace_afterStar (noSlash : ∀ rest, s ≠ '/' :: rest) :
    trace Mode.past .afterStar depth offset s = trace Mode.past .blockComment depth offset s := by
  refine trace_congr rfl fun c rest split => ?_
  by_cases feed : c = '\n'
  · subst feed
    rfl
  · change Mode.next _ c = Mode.next _ c
    rw [Mode.next_of_ne _ feed, Mode.next_of_ne _ feed]
    exact if_neg fun same => noSlash rest (by rw [split, same])

/-- A character of code that starts no lexeme and neither closes nor separates. -/
theorem trace_code (noLine : ∀ rest, c = '/' → s ≠ '/' :: rest)
    (noBlock : ∀ rest, c = '/' → s ≠ '*' :: rest) (noVerbatim : ∀ rest, c = '@' → s ≠ '"' :: rest)
    (noInterpolated : ∀ rest, c = '@' → s ≠ '$' :: '"' :: rest) (noClosing : depth = 0 → c ≠ ')')
    (noComma : depth = 0 → c ≠ ',') :
    trace Mode.past .code depth offset (c :: s) =
      let context : Context :=
        if c = '"' then .string else if c = '\'' then .character else .code
      let later := trace Mode.past context.mode (nest depth c) (offset + c.utf8Size) s
      if isBracket c then later.mark ⟨offset, c⟩ else later := by
  have further : (decide (depth = 0) && decide (c = ')')) = false := by simpa using noClosing
  have bracket : divides depth c = isBracket c := by
    have apart : (decide (depth = 0) && decide (c = ',')) = false := by simpa using noComma
    rw [divides, apart, Bool.or_false]
  have opens :
      (if c = '"' then .string else if c = '\'' then .character else .code : Context).mode =
        if c = '"' then .string else if c = '\'' then .character else .code := by
    split
    · rfl
    · split <;> rfl
  dsimp only
  rw [opens, ← trace_ofCode noLine noBlock noVerbatim noInterpolated, trace, further, bracket,
    past_code]
  rfl

/-- A character of a literal that is not taken along by a backslash. -/
theorem trace_literal {context : Context} {quote : Char}
    (literal : context = .string ∧ quote = '"' ∨ context = .character ∧ quote = '\'')
    (noEscape : ∀ d rest, c = '\\' → s ≠ d :: rest) :
    trace Mode.past (if c = quote || c = '\n' then .code else context : Context).mode depth offset
        s =
      trace Mode.past (context.mode.past c) depth offset s := by
  by_cases backslash : c = '\\'
  · cases s with
    | nil => rfl
    | cons d rest => exact absurd rfl (noEscape d rest backslash)
  · by_cases feed : c = '\n'
    · subst feed
      rcases literal with ⟨rfl, rfl⟩ | ⟨rfl, rfl⟩ <;> rfl
    · refine congrArg (trace Mode.past · depth offset s) (Eq.symm ?_)
      rcases literal with ⟨rfl, rfl⟩ | ⟨rfl, rfl⟩
      · refine (Mode.string.next_of_ne feed).trans ?_
        simp only [Mode.step, backslash, feed, if_false, decide_false, Bool.or_false,
          decide_eq_true_eq]
        split <;> rfl
      · refine (Mode.character.next_of_ne feed).trans ?_
        simp only [Mode.step, backslash, feed, if_false, decide_false, Bool.or_false,
          decide_eq_true_eq]
        split <;> rfl

/-- In contexts that reach over lines only a step leads out. -/
theorem next_of_step_eq {mode : Mode} (reaches : mode.carry.mode = mode)
    (stays : mode.step c = mode) : mode.next c = mode := by
  unfold Mode.next
  split
  · exact reaches
  · exact stays

end Lexemes

/-- The division goes by the marks that the walk finds, and stops where the walk stops. -/
theorem trace_division (context : Context) (depth offset : Nat) (s : Text) :
    (division context depth offset s).trace = trace Mode.past context.mode depth offset s := by
  fun_induction division context depth offset s with
  | case1 => rfl
  | case6 => rfl
  | case2 _ _ rest ih =>
      exact ih.trans (Eq.symm (trace_append ['/', '/'] rfl rfl rfl))
  | case3 _ _ rest ih =>
      exact ih.trans (Eq.symm (trace_append ['/', '*'] rfl rfl rfl))
  | case4 _ _ _ ih =>
      rw [Division.trace_write]
      exact ih.trans (Eq.symm (trace_append ['@', '"'] rfl rfl rfl))
  | case5 _ _ _ ih =>
      rw [Division.trace_write]
      exact ih.trans (Eq.symm (trace_append ['@', '$', '"'] rfl rfl rfl))
  | case7 offset rest ih =>
      rw [Division.trace_mark, Division.trace_divide, ih]
      rfl
  | case8 _ _ c _ noLine noBlock noVerbatim noInterpolated noClosing noComma _ _ bracket ih =>
      rw [Context.mode, trace_code noLine noBlock noVerbatim noInterpolated noClosing noComma]
      refine Eq.trans ?_ (Eq.symm (if_pos bracket))
      exact congrArg (Trace.mark _) ((Division.trace_write _ _).trans ih)
  | case9 _ _ c _ noLine noBlock noVerbatim noInterpolated noClosing noComma _ _ plain ih =>
      rw [Context.mode, trace_code noLine noBlock noVerbatim noInterpolated noClosing noComma]
      refine Eq.trans ?_ (Eq.symm (if_neg plain))
      exact (Division.trace_write _ _).trans ih
  | case10 _ _ _ ih =>
      rw [Division.trace_write, ih]
      exact Eq.symm (trace_outside rfl)
  | case11 _ _ _ _ noFeed ih =>
      rw [ih, trace_outside rfl]
      exact congrArg (trace Mode.past · _ _ _) (Eq.symm (Mode.lineComment.next_of_ne noFeed))
  | case12 _ _ _ ih =>
      exact ih.trans (Eq.symm (trace_append ['*', '/'] rfl rfl rfl))
  | case13 _ _ c rest noEnd ih =>
      rw [ih, trace_outside rfl]
      by_cases star : c = '*'
      · subst star
        exact Eq.symm (trace_afterStar fun more => noEnd more rfl)
      · exact congrArg (trace Mode.past · _ _ rest) (Eq.symm (next_of_step_eq rfl (if_neg star)))
  | case14 _ _ _ ih =>
      rw [Division.trace_write]
      exact ih.trans (Eq.symm (trace_append ['"', '"'] rfl rfl rfl))
  | case15 _ _ c rest noQuote ih =>
      rw [Division.trace_write, ih, trace_outside rfl]
      by_cases quote : c = '"'
      · subst quote
        exact Eq.symm (trace_afterQuote fun more => noQuote more rfl)
      · rw [if_neg quote]
        exact congrArg (trace Mode.past · _ _ rest) (Eq.symm (next_of_step_eq rfl (if_neg quote)))
  | case16 _ _ _ _ ih | case18 _ _ _ _ ih =>
      rw [Division.trace_write, ih, trace_outside rfl, trace_outside rfl]
      rfl
  | case17 _ _ c rest noEscape ih =>
      rw [Division.trace_write, ih, trace_outside rfl]
      exact trace_literal (.inl ⟨rfl, rfl⟩) noEscape
  | case19 _ _ c rest noEscape ih =>
      rw [Division.trace_write, ih, trace_outside rfl]
      exact trace_literal (.inr ⟨rfl, rfl⟩) noEscape

/-- Arguments are read behind the parenthesis that opens them. -/
theorem arguments?_append (front inside : Text) :
    arguments? (front ++ '(' :: inside) (Text.width front) =
      argumentsFrom? (Text.width front + 1) inside := by
  rw [arguments?, Text.splitAtByte_width_append]
  exact if_pos rfl

/-! ## Marks and where they stand -/

/-- How many brackets are open behind a character, if it does not close the call. -/
def nestAt? (mode : Mode) (depth : Nat) (c : Char) : Option Nat :=
  if mode.isCode then if depth = 0 && c = ')' then none else some (nest depth c) else some depth

/-- How many brackets are open behind a text, if the call is not closed in it. -/
def nestBehind? (next : Mode → Char → Mode) : Mode → Nat → Text → Option Nat
  | _, depth, [] => some depth
  | mode, depth, c :: rest =>
      (nestAt? mode depth c).bind fun depth => nestBehind? next (next mode c) depth rest

theorem nestAt?_eq_none_iff {mode : Mode} {depth : Nat} {c : Char} :
    nestAt? mode depth c = none ↔ mode.isCode = true ∧ depth = 0 ∧ c = ')' := by
  unfold nestAt?
  split
  · next inCode => simp [inCode]
  · next outside => simp [outside]

section Places

variable {next : Mode → Char → Mode} {mode : Mode} {depth offset : Nat} {c : Char}
  {s before : Text}

theorem trace_closing (closing : nestAt? mode depth c = none) :
    trace next mode depth offset (c :: s) = ⟨[⟨offset, c⟩], some (offset + 1)⟩ := by
  obtain ⟨inCode, rfl, rfl⟩ := nestAt?_eq_none_iff.1 closing
  rw [trace, if_pos inCode]
  rfl

theorem trace_further {inner : Nat} (further : nestAt? mode depth c = some inner) :
    trace next mode depth offset (c :: s) =
      let later := trace next (next mode c) inner (offset + c.utf8Size) s
      if mode.isCode && divides depth c then later.mark ⟨offset, c⟩ else later := by
  unfold nestAt? at further
  rw [trace]
  cases inCode : mode.isCode with
  | false =>
      rw [inCode] at further
      obtain rfl := Option.some.inj further
      rfl
  | true =>
      rw [inCode, if_pos rfl] at further
      split at further
      · cases further
      · next notClosing =>
          obtain rfl := Option.some.inj further
          rw [if_pos rfl, if_neg notClosing]
          rfl

/-- The marks are what divides at the first character, and then those behind it. -/
theorem mem_trace_cons {mark : Mark} :
    mark ∈ (trace next mode depth offset (c :: s)).marks ↔
      (mark = ⟨offset, c⟩ ∧ mode.isCode = true ∧ divides depth c = true) ∨
        ∃ inner, nestAt? mode depth c = some inner ∧
          mark ∈ (trace next (next mode c) inner (offset + c.utf8Size) s).marks := by
  cases here : nestAt? mode depth c with
  | none =>
      obtain ⟨inCode, rfl, rfl⟩ := nestAt?_eq_none_iff.1 here
      simp [trace_closing here, inCode, divides, isBracket]
  | some inner =>
      rw [trace_further here]
      dsimp only
      split
      · next both =>
          rw [Bool.and_eq_true] at both
          simp [Trace.mark, both]
      · next neither =>
          rw [Bool.and_eq_true] at neither
          simp [neither]

/-- The marks are the characters of code that divide, up to the one that closes the call. -/
theorem mem_trace_iff {mark : Mark} :
    mark ∈ (trace next mode depth offset s).marks ↔
      ∃ before after inner, s = before ++ mark.char :: after ∧
        mark.offset = offset + width before ∧ nestBehind? next mode depth before = some inner ∧
        (before.foldl next mode).isCode = true ∧ divides inner mark.char = true := by
  induction s generalizing mode depth offset with
  | nil => simp [trace]
  | cons c rest ih =>
      rw [mem_trace_cons]
      constructor
      · rintro (⟨rfl, inCode, marks⟩ | ⟨outer, further, later⟩)
        · exact ⟨[], rest, depth, rfl, rfl, rfl, inCode, marks⟩
        · obtain ⟨before, after, inner, rfl, place, reached, inCode, marks⟩ := ih.1 later
          refine ⟨c :: before, after, inner, rfl, ?_, ?_, inCode, marks⟩
          · rw [place, Text.width_cons, Nat.add_assoc]
          · rw [nestBehind?, further, Option.bind_some, reached]
      · rintro ⟨before, after, inner, split, place, reached, inCode, marks⟩
        cases before with
        | nil =>
            obtain ⟨rfl, -⟩ := List.cons.inj split
            obtain rfl := Option.some.inj reached
            refine Or.inl ⟨?_, inCode, marks⟩
            rw [← Nat.add_zero offset]
            exact congrArg (Mark.mk · mark.char) place
        | cons d more =>
            obtain ⟨rfl, rfl⟩ := List.cons.inj split
            obtain ⟨outer, further, later⟩ := Option.bind_eq_some_iff.1 reached
            refine Or.inr ⟨outer, further, ih.2 ⟨more, after, inner, rfl, ?_, later, inCode, marks⟩⟩
            rw [place, Text.width_cons, Nat.add_assoc]

theorem stop_trace_further {inner : Nat} (further : nestAt? mode depth c = some inner) :
    (trace next mode depth offset (c :: s)).stop =
      (trace next (next mode c) inner (offset + c.utf8Size) s).stop := by
  rw [trace_further further]
  dsimp only
  split <;> rfl

/-- The walk goes on behind a text that the call is not closed in. -/
theorem stop_append_of_some (offset : Nat) (rest : Text) {inner : Nat}
    (further : nestBehind? next mode depth before = some inner) :
    (trace next mode depth offset (before ++ rest)).stop =
      (trace next (before.foldl next mode) inner (offset + width before) rest).stop := by
  induction before generalizing mode depth offset with
  | nil =>
      obtain rfl := Option.some.inj further
      rfl
  | cons c more ih =>
      obtain ⟨outer, here, later⟩ := Option.bind_eq_some_iff.1 further
      rw [List.cons_append, stop_trace_further here, ih _ later, Text.width_cons, Nat.add_assoc]
      rfl

/-- The parenthesis that closes a call is a character of code outside of inner brackets. -/
theorem stop_append_of_none (offset : Nat) (rest : Text) (closed : nestBehind? next mode depth before = none) :
    ∃ front after, before = front ++ ')' :: after ∧
      nestBehind? next mode depth front = some 0 ∧ (front.foldl next mode).isCode = true ∧
      (trace next mode depth offset (before ++ rest)).stop = some (offset + width front + 1) := by
  induction before generalizing mode depth offset with
  | nil => cases closed
  | cons c more ih =>
      cases here : nestAt? mode depth c with
      | none =>
          obtain ⟨inCode, rfl, rfl⟩ := nestAt?_eq_none_iff.1 here
          refine ⟨[], more, rfl, rfl, inCode, ?_⟩
          rw [List.cons_append, trace_closing here]
          rfl
      | some inner =>
          rw [nestBehind?, here, Option.bind_some] at closed
          obtain ⟨front, after, rfl, reached, inCode, stop⟩ :=
            ih (offset + c.utf8Size) closed
          refine ⟨c :: front, after, rfl, ?_, inCode, ?_⟩
          · rw [nestBehind?, here, Option.bind_some, reached]
          · rw [List.cons_append, stop_trace_further here, stop, Text.width_cons]
            exact congrArg some (by omega)

theorem stop_eq_none_iff :
    (trace next mode depth offset s).stop = none ↔ nestBehind? next mode depth s ≠ none := by
  constructor
  · intro unclosed closed
    obtain ⟨front, after, -, -, -, stop⟩ := stop_append_of_none offset [] closed
    rw [List.append_nil, unclosed] at stop
    cases stop
  · intro reached
    obtain ⟨inner, further⟩ := Option.ne_none_iff_exists'.1 reached
    have stop := stop_append_of_some offset [] further
    rwa [List.append_nil] at stop

/-- A place is not behind the end of a call if the call is not closed before it. -/
theorem lt_stop_iff (offset : Nat) {after : Text} :
    (∀ stop, (trace next mode depth offset (before ++ c :: after)).stop = some stop →
      offset + width before < stop) ↔ nestBehind? next mode depth before ≠ none := by
  constructor
  · intro within closed
    obtain ⟨front, later, rfl, -, -, stop⟩ :=
      stop_append_of_none offset (c :: after) closed
    have behind := within _ stop
    rw [Text.width_append, Text.width_cons] at behind
    have wide : ')'.utf8Size = 1 := rfl
    omega
  · intro reached stop stops
    obtain ⟨inner, further⟩ := Option.ne_none_iff_exists'.1 reached
    rw [stop_append_of_some offset (c :: after) further] at stops
    have closed : nestBehind? next (before.foldl next mode) inner (c :: after) = none := by
      by_contra unclosed
      rw [stop_eq_none_iff.2 unclosed] at stops
      cases stops
    obtain ⟨front, later, -, -, -, found⟩ :=
      stop_append_of_none (offset + width before) [] closed
    rw [List.append_nil, stops] at found
    have same := Option.some.inj found
    omega

end Places

end MigrationSquash.Code
