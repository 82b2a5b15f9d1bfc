import MigrationSquash.Proofs.Script.Body

/-!
# Scripts inside their literals

The body that runs a script is one statement, whatever the script holds: a quote is the only
character that could end the verbatim string, and each one is doubled.  Main statement: the
arguments of the call are the script alone and stop before the semicolon, and the scan of the lines
of the body finds no brace and leaves nothing open.
-/

set_option autoImplicit false

namespace MigrationSquash

namespace Code

/-- A text without structural braces has lines without them. -/
theorem braces_eq_nil_of_kindsOfText {carry : Carry} {s : Text}
    (noBrace : carry.mode.kindsOfText s = []) :
    ∀ scan ∈ scanLines carry (Text.lines s), scan.braces = [] := by
  intro scan member
  have nothing := kinds_scanLines carry (Text.lines s)
  rw [(carry.mode.kindsOfLines_lines s).1, noBrace, List.flatMap_eq_nil_iff] at nothing
  exact List.map_eq_nil_iff.1 (nothing scan member)

end Code

namespace Script

open Code (Mode scanLines)

/-- What both readers of source text make of a statement that is nothing but a call with the
script as its only argument. -/
structure SelfContained (sql text : Text) : Prop where
  arguments : ∃ front inside statement value,
    text = front ++ '(' :: inside ∧ '(' ∉ front ∧ text = statement ++ [';'] ∧
      Code.arguments? text (Text.width front) = some ([⟨none, value⟩], Text.width statement) ∧
      Code.literalValue value = some sql
  braceless : ∀ scan ∈ scanLines .code (Text.lines text), scan.braces = []
  closed : (scanLines .code (Text.lines text)).getLast?.map (·.carry) = some .code

theorem read_call (sql : Text) :
    Mode.code.kindsOfText (call sql) = [] ∧ (Mode.code.read (call sql)).carry = .code := by
  have start : Mode.code.read callStart = .verbatim ∧ Mode.code.kindsOfText callStart = [] := by
    decide
  have stop : (Mode.verbatim.read callEnd).carry = .code ∧
      Mode.verbatim.kindsOfText callEnd = [] := by
    decide
  obtain ⟨stays, noBrace⟩ := read_double sql
  simp only [call, Mode.kindsOfText_append, Mode.read_append, start, stays, noBrace, stop,
    List.append_nil, and_self]

/-- A script cannot leave the literal that it is written into. -/
theorem selfContained_toBody {sql : Text} (visible : Text.isBlankText sql = false) :
    SelfContained sql (toBody sql) := by
  have body : toBody sql = call sql := by
    rw [toBody_eq, visible]
    rfl
  obtain ⟨noBrace, closed⟩ := read_call sql
  rw [body]
  constructor
  · refine ⟨"migrationBuilder.Sql".toList, _, callStart ++ (double sql ++ ['"', ')']), literal sql,
      call_eq sql, by decide, ?_, arguments?_call sql, literalValue_literal sql⟩
    simp [call, callEnd]
  · exact Code.braces_eq_nil_of_kindsOfText noBrace
  · have nonempty : call sql ≠ [] := List.cons_ne_nil 'm' _
    rw [Code.carry_getLast?_scanLines .code (Text.lines_ne_nil nonempty)]
    exact congrArg some ((Mode.kindsOfLines_lines _ _).2.trans closed)

/-- A script in quotes with brackets, comments and escapes that would all mean something in code. -/
def hostile : Text := "\"\"a: \\\"); \x7b // /* '\n*/ \x7d, @\" ) \"".toList

theorem selfContained_hostile :
    Text.isBlankText hostile = false ∧ SelfContained hostile (toBody hostile) ∧
      toBody hostile = "migrationBuilder.Sql(@\"".toList ++
        "\"\"\"\"a: \\\"\"); \x7b // /* '\n*/ \x7d, @\"\" ) \"\"".toList ++ "\");".toList :=
  ⟨by decide, selfContained_toBody (by decide), by decide⟩

end Script

end MigrationSquash
