import MigrationSquash.Proofs.Import.Recognition
import MigrationSquash.Proofs.Merge.Written

/-!
# Collected directives

What is collected from a file against the directives that stand in its code.  Both are the same
exactly if every directive in code is plain and has a line to itself, and no other line reads like
an import.  The directives that are collected from any of the migrations stand in the source they
are merged into.
-/

set_option autoImplicit false

namespace MigrationSquash

open Text (AllBlank)

namespace Code

variable {alphabet : Alphabet}

namespace Directive

/-- What may follow a directive on its line: blanks and a comment. -/
def Trails (back : Text) : Prop :=
  ∃ gap comment, back = gap ++ comment ∧ AllBlank gap ∧
    (comment = [] ∨ ['/', '/'] <+: comment ∨ ['/', '*'] <+: comment)

/-- The line is the directive, perhaps with a comment behind it. -/
def Begins (directive : Directive alphabet) (line : Text) : Prop :=
  ∃ front back, line = front ++ (directive.text ++ back) ∧ AllBlank front ∧ Trails back

/-- The directive begins a line that starts in code. -/
def StandsInCode (directive : Directive alphabet) (lines : List Text) : Prop :=
  ∃ line, (Carry.code, line) ∈ withCarry .code lines ∧ directive.Begins line

/-- The directive is all that a line holds. -/
def StandsAlone (directive : Directive alphabet) (lines : List Text) : Prop :=
  ∃ line ∈ lines, Text.trim line = directive.text

end Directive

/-- What is collected from the lines is what stands in their code. -/
def CollectsExactly (alphabet : Alphabet) (lines : List Text) : Prop :=
  ∀ s, s ∈ (ImportSet.ofLines lines).items ↔
    ∃ directive : Directive alphabet, directive.StandsInCode lines ∧ s = directive.text

namespace Directive

variable {directive : Directive alphabet} {line : Text}

theorem isImport_of_trim (same : Text.trim line = directive.text) :
    isImport line = true ↔ directive.IsPlain := by
  obtain ⟨front, back, split, frontBlank, backBlank⟩ := Text.blanks_append_trim line
  rw [split, same, isImport_iff directive frontBlank back]
  exact and_iff_left backBlank

/-- A directive is collected exactly if it is plain and has a line to itself. -/
theorem text_mem_ofLines_iff {lines : List Text} :
    directive.text ∈ (ImportSet.ofLines lines).items ↔
      directive.IsPlain ∧ directive.StandsAlone lines := by
  rw [ImportSet.mem_ofLines]
  constructor
  · rintro ⟨line, member, reads, same⟩
    exact ⟨(isImport_of_trim same.symm).1 reads, line, member, same.symm⟩
  · rintro ⟨plain, line, member, same⟩
    exact ⟨line, member, (isImport_of_trim same).2 plain, same.symm⟩

/-- A line that begins with a directive and is taken for an import is the directive. -/
theorem Begins.of_isImport (begins : directive.Begins line) (reads : isImport line = true) :
    directive.IsPlain ∧ Text.trim line = directive.text := by
  obtain ⟨front, back, rfl, frontBlank, -⟩ := begins
  obtain ⟨plain, backBlank⟩ := (isImport_iff directive frontBlank back).1 reads
  refine ⟨plain, ?_⟩
  rw [Text.trim_blanks_append frontBlank, Text.trim_append_blanks backBlank, directive.trim_text]

theorem Begins.exists_trimStart (begins : directive.Begins line) :
    ∃ back, Text.trimStart line = directive.text ++ back := by
  obtain ⟨front, back, rfl, blank, -⟩ := begins
  obtain ⟨c, rest, split, visible⟩ := directive.exists_cons
  exact ⟨back, by rw [split, List.cons_append, Text.trimStart_append_of_not_isBlank blank visible]⟩

/-- A line that begins with a directive starts with one of two keywords. -/
theorem Begins.exists_keyword (begins : directive.Begins line) :
    ∃ word ∈ ["using".toList, "global".toList],
      Text.startsWith word (Text.trimStart line) = true := by
  obtain ⟨back, start⟩ := begins.exists_trimStart
  simp only [start, Text.startsWith_iff]
  cases wide : directive.globalGap with
  | none => exact ⟨"using".toList, by decide, _, by rw [text, wide]; rfl⟩
  | some gap => exact ⟨"global".toList, by decide, _, by rw [text, wide]; rfl⟩

end Directive

/-- Imports that are placed stand in the lines, each on a line of its own. -/
theorem exists_trim_of_mem_items {imports : ImportSet} {s : Text} (member : s ∈ imports.items)
    (trimmed : Text.trim s = s) (lines : List Text) :
    ∃ line ∈ placeImports lines imports, Text.trim line = s := by
  have nonempty : imports.isEmpty = false := by
    cases empty : imports.isEmpty with
    | false => rfl
    | true =>
        rw [List.isEmpty_iff.1 empty] at member
        cases member
  refine ⟨(placement lines).indent ++ s, ?_, ?_⟩
  · simp [placeImports, nonempty, member]
  · rw [Text.trim_blanks_append (allBlank_placement_indent lines), trimmed]

end Code

open Code (Alphabet Directive CollectsExactly)

/-- A directive is collected exactly if it is plain and has a line to itself.  So the directives in
the code of a file are collected, and nothing else, exactly if each of them is plain and has a line
to itself and every line that reads like an import repeats one of them.  Plain directives with a
line to themselves in any of the migrations have one in the merged source. -/
theorem collects_exactly_iff (alphabet : Alphabet) (lines : List Text) :
    (∀ directive : Directive alphabet,
        directive.text ∈ (Code.ImportSet.ofLines lines).items ↔
          directive.IsPlain ∧ directive.StandsAlone lines) ∧
      (CollectsExactly alphabet lines ↔
          (∀ directive : Directive alphabet, directive.StandsInCode lines →
            directive.IsPlain ∧ directive.StandsAlone lines) ∧
          ∀ line ∈ lines, Code.isImport line = true →
            ∃ directive : Directive alphabet, directive.StandsInCode lines ∧
              directive.text = Text.trim line) ∧
      ∀ (target : List Text) (migrations : List Migration),
        (∃ migration ∈ migrations, migration.source.lines = lines) →
          ∀ directive : Directive alphabet, directive.IsPlain → directive.StandsAlone lines →
            directive.StandsAlone (mergeInto target migrations) := by
  refine ⟨fun _ => Directive.text_mem_ofLines_iff, ?_, ?_⟩
  · constructor
    · intro exact_
      constructor
      · intro directive stands
        exact Directive.text_mem_ofLines_iff.1 ((exact_ directive.text).2 ⟨directive, stands, rfl⟩)
      · intro line member reads
        have collected := Code.ImportSet.mem_ofLines.2 ⟨line, member, reads, rfl⟩
        obtain ⟨directive, stands, same⟩ := (exact_ (Text.trim line)).1 collected
        exact ⟨directive, stands, same.symm⟩
    · rintro ⟨plain, written⟩ s
      constructor
      · intro collected
        obtain ⟨line, member, reads, rfl⟩ := Code.ImportSet.mem_ofLines.1 collected
        obtain ⟨directive, stands, same⟩ := written line member reads
        exact ⟨directive, stands, same.symm⟩
      · rintro ⟨directive, stands, rfl⟩
        exact Directive.text_mem_ofLines_iff.2 (plain directive stands)
  · rintro target migrations ⟨migration, given, rfl⟩ directive plain alone
    have collected : directive.text ∈ migration.imports.items :=
      Directive.text_mem_ofLines_iff.2 ⟨plain, alone⟩
    have merged := mem_imports_merged_iff.2 ⟨migration, given, collected⟩
    exact Code.exists_trim_of_mem_items merged directive.trim_text _

namespace Sample

/-- All word characters as letters, of which those beyond the first 128 may start a name. -/
def wordAlphabet : Alphabet where
  starts c := if c.val.toNat < 0x80 then Text.isWordStart c else Text.isWord c
  inside := Text.isWord
  inside_of_starts c starts := by
    split at starts
    · apply Text.isWord_of_isAsciiWord
      rw [Text.isWordStart, Bool.or_eq_true] at starts
      rw [Text.isAsciiWord, Char.isAlphanum, Bool.or_eq_true, Bool.or_eq_true]
      exact starts.imp_left Or.inl
    · exact starts
  starts_ascii _ ascii := if_pos ascii
  inside_ascii _ ascii := if_pos ascii
  visible _ := Text.isBlank_eq_false_of_isWord

def noGap : Directive.Gap := ⟨[], List.forall_mem_nil _⟩

def oneGap : Directive.Gap := ⟨[' '], Text.allBlank_singleton (by decide)⟩

def systemName : Directive.Name wordAlphabet :=
  ⟨false, 'S', "ystem".toList, by decide, List.all_eq_true.1 (by decide)⟩

def coreName : Directive.Name wordAlphabet :=
  ⟨false, 'C', "ore".toList, by decide, List.all_eq_true.1 (by decide)⟩

def globalName : Directive.Name wordAlphabet :=
  ⟨false, 'g', "lobal".toList, by decide, List.all_eq_true.1 (by decide)⟩

def usingSystem : Directive wordAlphabet where
  globalGap := none
  globalApart := nofun
  gap := oneGap
  target := .names ⟨⟨none, systemName, []⟩, [], [], .bare, .unmarked⟩ rfl
  apart := nofun
  space := noGap

def usingGlobalCore : Directive wordAlphabet where
  globalGap := none
  globalApart := nofun
  gap := oneGap
  target := .names ⟨⟨some ⟨globalName, noGap, noGap⟩, systemName, [⟨noGap, noGap, coreName⟩]⟩,
    [], [], .bare, .unmarked⟩ rfl
  apart := nofun
  space := noGap

def intName : Directive.Name wordAlphabet :=
  ⟨false, 'i', "nt".toList, by decide, List.all_eq_true.1 (by decide)⟩

def listName : Directive.Name wordAlphabet :=
  ⟨false, 'L', "ist".toList, by decide, List.all_eq_true.1 (by decide)⟩

def intsName : Directive.Name wordAlphabet :=
  ⟨true, 'I', "nts".toList, by decide, List.all_eq_true.1 (by decide)⟩

def usingInts : Directive wordAlphabet where
  globalGap := some oneGap
  globalApart := by
    rintro gap ⟨⟩
    exact List.cons_ne_nil _ _
  gap := oneGap
  target := .renamed intsName oneGap oneGap
    ⟨⟨none, systemName, [⟨noGap, noGap, listName⟩]⟩, _, [],
      .given noGap.2 (.item noGap.2 (.named ⟨none, intName, []⟩ .bare .unmarked) noGap.2),
      .unmarked⟩
  apart := nofun
  space := noGap

/-- Plain directives, one of them once more in a comment. -/
def tidy : Migration where
  id := ⟨"20240303000000".toList, "Tidy".toList⟩
  source := {
    lines := [
      "global using @Ints = System.List<int>;".toList,
      "/*".toList,
      "using System;".toList,
      "*/".toList,
      "namespace App;".toList,
      "  using System; ".toList,
      "class Tidy \x7b \x7d".toList]
    newline := .lineFeed
    marked := false }

/-- A directive with a qualified name, and one in a comment. -/
def qualified : Migration where
  id := ⟨"20240202000000".toList, "Qualified".toList⟩
  source := {
    lines := [
      "using System;".toList,
      "using global::System.Core;".toList,
      "/*".toList,
      "using App.Old;".toList,
      "*/".toList]
    newline := .lineFeed
    marked := false }

end Sample

theorem collects_exactly_tidy :
    CollectsExactly Sample.wordAlphabet Sample.tidy.source.lines ∧
      (Sample.usingInts.IsPlain ∧ Sample.usingInts.StandsAlone Sample.tidy.source.lines) ∧
      Sample.usingInts.StandsAlone
        (mergeInto Sample.oldest.source.lines [Sample.oldest, Sample.tidy]) := by
  obtain ⟨collected, exactly, merged⟩ :=
    collects_exactly_iff Sample.wordAlphabet Sample.tidy.source.lines
  have ints : Sample.usingInts.text = "global using @Ints = System.List<int>;".toList := by decide
  have system : Sample.usingSystem.text = "using System;".toList := by decide
  have plain := (collected Sample.usingInts).1 (by decide)
  refine ⟨exactly.2 ⟨?_, ?_⟩, plain,
    merged Sample.oldest.source.lines [Sample.oldest, Sample.tidy]
      ⟨Sample.tidy, by simp, rfl⟩ Sample.usingInts plain.1 plain.2⟩
  · rintro directive ⟨line, inCode, begins⟩
    have reads : ∀ pair ∈ Code.withCarry .code Sample.tidy.source.lines, pair.1 = .code →
        Code.isImport pair.2 = true ∨ ∀ word ∈ ["using".toList, "global".toList],
          Text.startsWith word (Text.trimStart pair.2) = false := by decide
    rcases reads _ inCode rfl with isImport | other
    · obtain ⟨plain, same⟩ := begins.of_isImport isImport
      exact ⟨plain, line, Code.mem_of_mem_withCarry inCode, same⟩
    · obtain ⟨word, given, starts⟩ := begins.exists_keyword
      rw [other word given] at starts
      cases starts
  · have either : ∀ line ∈ Sample.tidy.source.lines, Code.isImport line = true →
        Text.trim line = Sample.usingInts.text ∨ Text.trim line = Sample.usingSystem.text := by
      decide
    intro line member isImport
    rcases either line member isImport with same | same
    · refine ⟨Sample.usingInts, ⟨_, List.mem_cons_self, [], [], ?_, nofun, [], [], rfl, nofun,
        Or.inl rfl⟩, same.symm⟩
      rw [ints]
      rfl
    · refine ⟨Sample.usingSystem, ⟨"  using System; ".toList, by decide, "  ".toList, " ".toList,
        ?_, Text.allBlank_iff.2 (by decide), " ".toList, [], rfl,
        Text.allBlank_iff.2 (by decide), Or.inl rfl⟩, same.symm⟩
      rw [system]
      rfl

theorem qualified_directive_lost :
    Sample.usingGlobalCore.StandsInCode Sample.qualified.source.lines ∧
      Sample.usingGlobalCore.text = "using global::System.Core;".toList ∧
      Sample.qualified.imports.items = ["using App.Old;".toList, "using System;".toList] ∧
      (∀ directive : Directive Sample.wordAlphabet,
        directive.StandsInCode Sample.qualified.source.lines →
          directive.text ≠ "using App.Old;".toList) ∧
      ¬ CollectsExactly Sample.wordAlphabet Sample.qualified.source.lines ∧
      ¬ Sample.usingGlobalCore.StandsAlone
        (mergeInto Sample.oldest.source.lines [Sample.oldest, Sample.qualified]) := by
  have text : Sample.usingGlobalCore.text = "using global::System.Core;".toList := by decide
  have items : Sample.qualified.imports.items =
      ["using App.Old;".toList, "using System;".toList] := by decide
  have stands : Sample.usingGlobalCore.StandsInCode Sample.qualified.source.lines := by
    refine ⟨"using global::System.Core;".toList, by decide, [], [], ?_, nofun, [], [], rfl, nofun,
      Or.inl rfl⟩
    rw [text]
    rfl
  have noOld : ∀ directive : Directive Sample.wordAlphabet,
      directive.StandsInCode Sample.qualified.source.lines →
        directive.text ≠ "using App.Old;".toList := by
    rintro directive ⟨line, inCode, begins⟩ same
    have others : ∀ pair ∈ Code.withCarry .code Sample.qualified.source.lines,
        pair.1 = .code →
          Text.startsWith "using App.Old;".toList (Text.trimStart pair.2) = false := by decide
    obtain ⟨back, start⟩ := begins.exists_trimStart
    have starts : Text.startsWith "using App.Old;".toList (Text.trimStart line) = true :=
      Text.startsWith_iff.2 ⟨back, by rw [start, same]⟩
    rw [others _ inCode rfl] at starts
    cases starts
  refine ⟨stands, text, items, noOld, ?_, ?_⟩
  · intro exact_
    have collected : "using App.Old;".toList ∈ Sample.qualified.imports.items := by
      rw [items]
      exact List.mem_cons_self
    obtain ⟨directive, inCode, same⟩ := (exact_ _).1 collected
    exact noOld directive inCode same.symm
  · rintro ⟨line, member, same⟩
    have others : ∀ line ∈ mergeInto Sample.oldest.source.lines [Sample.oldest, Sample.qualified],
        Text.trim line ≠ "using global::System.Core;".toList := by decide
    exact others line member (same.trans text)

end MigrationSquash
