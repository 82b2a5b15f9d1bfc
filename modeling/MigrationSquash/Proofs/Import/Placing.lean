import MigrationSquash.Proofs.Region.Characters
import MigrationSquash.Proofs.Text.ByteOrder

/-!
# Placing imports

What placing a set of imports leaves of a file, and what a second set leaves of the first one.
Lines that give way declare no namespace and open none, so the place is the same before and after.
Main statements: placing keeps all lines but blank ones and imports, and where the set holds all
that the file imports it is what the file imports afterwards; and the last set that is placed
decides.
-/

set_option autoImplicit false

namespace MigrationSquash.Code

open Text (AllBlank encodeUtf8)

variable {line : Text} {lines : List Text} {imports : ImportSet}

/-! ## Lines that give way -/

theorem isImport_blanks_append {blanks : Text} (blank : AllBlank blanks) (s : Text) :
    isImport (blanks ++ s) = isImport s := by
  have start : Text.trimStart (blanks ++ s) = Text.trimStart s :=
    List.dropWhile_append_of_pos blank
  rw [isImport, isImport, start]

theorem isReplaced_of_isImport (directive : isImport line = true) : isReplaced line = true := by
  rw [isReplaced, directive, Bool.or_true]

theorem isReplaced_nil : isReplaced [] = true := rfl

/-- What gives way starts neither like a namespace nor with the brace of one. -/
theorem starts_of_isReplaced (gives : isReplaced line = true) :
    Text.after? "namespace".toList (Text.trimStart line) = none ∧
      Text.after? ['{'] (Text.trimStart line) = none := by
  rcases Bool.or_eq_true_iff.1 gives with blank | directive
  · have nothing : Text.trimStart line = [] :=
      List.dropWhile_eq_nil_iff.2 (Text.allBlank_iff.2 blank)
    rw [nothing]
    exact ⟨rfl, rfl⟩
  · obtain ⟨word, keyword, rest, split⟩ := exists_keyword_of_isImport directive
    rw [split]
    simp only [List.mem_cons, List.not_mem_nil, or_false] at keyword
    rcases keyword with rfl | rfl <;> exact ⟨rfl, rfl⟩

theorem namespaceEnd?_of_isReplaced (gives : isReplaced line = true) :
    namespaceEnd? line = none := by
  rw [namespaceEnd?, afterKeyword?, (starts_of_isReplaced gives).1]
  rfl

theorem findIdx?_namespace_eq_none (gives : ∀ line ∈ lines, isReplaced line = true) :
    lines.findIdx? (fun line => (namespaceEnd? line).isSome) = none := by
  rw [List.findIdx?_eq_none_iff]
  intro line member
  rw [namespaceEnd?_of_isReplaced (gives line member)]
  rfl

theorem findIdx?_opening_eq_none (gives : ∀ line ∈ lines, isReplaced line = true) :
    lines.findIdx? (fun line => Text.startsWith ['{'] (Text.trimStart line)) = none := by
  rw [List.findIdx?_eq_none_iff]
  intro line member
  rw [Text.startsWith, (starts_of_isReplaced (gives line member)).2]
  rfl

/-! ## The place -/

/-- Behind lines of which none is looked for, what is looked for is found further down. -/
theorem findIdx?_append_of_none {p : Text → Bool} {front : List Text}
    (none : front.findIdx? p = none) (rest : List Text) :
    (front ++ rest).findIdx? p = (rest.findIdx? p).map (· + front.length) := by
  rw [List.findIdx?_append, none, Option.none_or]

theorem findIdx?_append_of_some {p : Text → Bool} {front : List Text} {number : Nat}
    (found : front.findIdx? p = some number) (rest : List Text) :
    (front ++ rest).findIdx? p = some number := by
  rw [List.findIdx?_append, found, Option.some_or]

theorem lineAfterOpening_le {number : Nat} (inside : number < lines.length) :
    lineAfterOpening lines number ≤ lines.length := by
  unfold lineAfterOpening
  dsimp only
  split
  · next distance found =>
      obtain ⟨short, -⟩ := List.findIdx?_eq_some_iff_getElem.1 found
      rw [List.length_drop] at short
      omega
  · exact inside

theorem lt_lineAfterOpening (lines : List Text) (number : Nat) :
    number < lineAfterOpening lines number := by
  unfold lineAfterOpening
  dsimp only
  split <;> omega

theorem placement_of_namespace {number : Nat}
    (found : lines.findIdx? (fun line => (namespaceEnd? line).isSome) = some number) :
    placement lines =
      match namespaceEnd? (lines.getD number []) with
      | some .statement => ⟨number + 1, Text.indentation (lines.getD number []), true⟩
      | some .opened =>
          ⟨number + 1, Text.indentation (lines.getD number []) ++ Text.indentStep, false⟩
      | _ => ⟨lineAfterOpening lines number,
          Text.indentation (lines.getD number []) ++ Text.indentStep, false⟩ := by
  unfold placement
  generalize lines.findIdx? _ = index at found
  subst found
  rfl

theorem placement_of_none
    (none : lines.findIdx? (fun line => (namespaceEnd? line).isSome) = none) :
    placement lines = ⟨(lines.findIdx? isImport).getD 0, [], false⟩ := by
  rw [placement, none]

/-- Imports are placed below the namespace declaration. -/
theorem lt_placement_line {number : Nat}
    (found : lines.findIdx? (fun line => (namespaceEnd? line).isSome) = some number) :
    number < (placement lines).line := by
  rw [placement_of_namespace found]
  split
  · exact Nat.lt_succ_self number
  · exact Nat.lt_succ_self number
  · exact lt_lineAfterOpening lines number

theorem placement_line_le (lines : List Text) : (placement lines).line ≤ lines.length := by
  cases found : lines.findIdx? (fun line => (namespaceEnd? line).isSome) with
  | none =>
      rw [placement_of_none found]
      cases first : lines.findIdx? isImport with
      | none => exact Nat.zero_le _
      | some number =>
          obtain ⟨inside, -⟩ := List.findIdx?_eq_some_iff_getElem.1 first
          exact Nat.le_of_lt inside
  | some number =>
      obtain ⟨inside, -⟩ := List.findIdx?_eq_some_iff_getElem.1 found
      rw [placement_of_namespace found]
      split
      · exact inside
      · exact inside
      · exact lineAfterOpening_le inside

section Swap

variable {top old new rest : List Text}

/-- The brace that opens a namespace is looked for beyond lines that give way. -/
theorem lineAfterOpening_swap {number : Nat} (inside : number < top.length)
    (here : lineAfterOpening (top ++ (old ++ rest)) number ≤ top.length)
    (oldGives : ∀ line ∈ old, isReplaced line = true)
    (newGives : ∀ line ∈ new, isReplaced line = true) :
    lineAfterOpening (top ++ (new ++ rest)) number =
      lineAfterOpening (top ++ (old ++ rest)) number := by
  have cut (below : List Text) :
      (top ++ below).drop (number + 1) = top.drop (number + 1) ++ below :=
    List.drop_append_of_le_length inside
  unfold lineAfterOpening at here ⊢
  rw [cut] at here ⊢
  rw [cut]
  dsimp only at here ⊢
  cases above : (top.drop (number + 1)).findIdx? fun line =>
      Text.startsWith ['{'] (Text.trimStart line) with
  | some distance => rw [findIdx?_append_of_some above, findIdx?_append_of_some above]
  | none =>
      rw [findIdx?_append_of_none above,
        findIdx?_append_of_none (findIdx?_opening_eq_none oldGives)] at here
      rw [findIdx?_append_of_none above, findIdx?_append_of_none above,
        findIdx?_append_of_none (findIdx?_opening_eq_none newGives),
        findIdx?_append_of_none (findIdx?_opening_eq_none oldGives)]
      cases below : rest.findIdx? fun line =>
          Text.startsWith ['{'] (Text.trimStart line) with
      | none => rfl
      | some distance =>
          rw [below] at here
          simp only [Option.map_some, List.length_drop] at here
          omega

/-- Without a namespace the place is that of the first import. -/
theorem findIdx?_import_swap
    (here : ((top ++ (old ++ rest)).findIdx? isImport).getD 0 = top.length)
    (starts : ∃ first more, new = first :: more ∧ isImport first = true) :
    ((top ++ (new ++ rest)).findIdx? isImport).getD 0 = top.length := by
  obtain ⟨first, more, rfl, directive⟩ := starts
  have above : top.findIdx? isImport = none := by
    cases found : top.findIdx? isImport with
    | none => rfl
    | some number =>
        rw [findIdx?_append_of_some found, Option.getD_some] at here
        obtain ⟨inside, -⟩ := List.findIdx?_eq_some_iff_getElem.1 found
        omega
  rw [findIdx?_append_of_none above, List.cons_append, List.findIdx?_cons, directive]
  simp

/-- The place stays the same where lines that give way are put in the place of others, if without
a namespace an import comes first. -/
theorem placement_swap (here : (placement (top ++ (old ++ rest))).line = top.length)
    (oldGives : ∀ line ∈ old, isReplaced line = true)
    (newGives : ∀ line ∈ new, isReplaced line = true)
    (starts : (placement (top ++ (old ++ rest))).blankBefore = false →
      ∃ first more, new = first :: more ∧ isImport first = true) :
    placement (top ++ (new ++ rest)) = placement (top ++ (old ++ rest)) := by
  cases above : top.findIdx? fun line => (namespaceEnd? line).isSome with
  | some number =>
      obtain ⟨inside, -⟩ := List.findIdx?_eq_some_iff_getElem.1 above
      have declaration (below : List Text) :
          (top ++ below).getD number [] = top.getD number [] := by
        rw [List.getD_eq_getElem?_getD, List.getD_eq_getElem?_getD,
          List.getElem?_append_left inside]
      rw [placement_of_namespace (findIdx?_append_of_some above _), declaration] at here ⊢
      rw [placement_of_namespace (findIdx?_append_of_some above _), declaration]
      split
      · rfl
      · rfl
      · next noStatement noBlock =>
          split at here
          · next same => exact absurd same noStatement
          · next same => exact absurd same noBlock
          · rw [lineAfterOpening_swap inside here.le oldGives newGives]
  | none =>
      cases below : rest.findIdx? fun line => (namespaceEnd? line).isSome with
      | some number =>
          -- a namespace below the place would have put the place further down
          have found : (top ++ (old ++ rest)).findIdx?
              (fun line => (namespaceEnd? line).isSome) =
                some (number + old.length + top.length) := by
            rw [findIdx?_append_of_none above,
              findIdx?_append_of_none (findIdx?_namespace_eq_none oldGives), below]
            rfl
          have further := lt_placement_line found
          omega
      | none =>
          have absent {middle : List Text} (gives : ∀ line ∈ middle, isReplaced line = true) :
              (top ++ (middle ++ rest)).findIdx? (fun line => (namespaceEnd? line).isSome) =
                none := by
            rw [findIdx?_append_of_none above,
              findIdx?_append_of_none (findIdx?_namespace_eq_none gives), below]
            rfl
          rw [placement_of_none (absent oldGives)] at here starts ⊢
          rw [placement_of_none (absent newGives), findIdx?_import_swap here (starts rfl), ← here]

end Swap

/-! ## What is placed -/

/-- The lines below the place that stay. -/
def keptBelow (lines : List Text) : List Text :=
  (lines.drop (placement lines).line).dropWhile isReplaced

/-- The lines of a set at a place above `rest`. -/
def Placement.block (place : Placement) (imports : ImportSet) (rest : List Text) : List Text :=
  (if place.blankBefore then [[]] else []) ++ (imports.items.map (place.indent ++ ·) ++
    if rest.isEmpty then [] else [[]])

theorem placeImports_of_nonempty (nonempty : imports.isEmpty = false) (lines : List Text) :
    placeImports lines imports =
      lines.take (placement lines).line ++
        ((placement lines).block imports (keptBelow lines) ++ keptBelow lines) := by
  rw [placeImports, nonempty]
  simp [Placement.block, keptBelow]

theorem isReplaced_of_mem_block (accepted : ∀ s ∈ imports.items, isImport s = true)
    (lines rest : List Text) :
    ∀ line ∈ (placement lines).block imports rest, isReplaced line = true := by
  intro line member
  simp only [Placement.block, List.mem_append, List.mem_map] at member
  rcases member with blank | ⟨item, inside, rfl⟩ | blank
  · split at blank
    · rw [List.mem_singleton.1 blank]
      exact isReplaced_nil
    · cases blank
  · apply isReplaced_of_isImport
    rw [isImport_blanks_append (allBlank_placement_indent lines)]
    exact accepted item inside
  · split at blank
    · cases blank
    · rw [List.mem_singleton.1 blank]
      exact isReplaced_nil

/-- Where no blank line comes first, an import does. -/
theorem exists_block_eq_cons (nonempty : imports.isEmpty = false)
    (accepted : ∀ s ∈ imports.items, isImport s = true) (rest : List Text)
    (noBlank : (placement lines).blankBefore = false) :
    ∃ first more, (placement lines).block imports rest = first :: more ∧
      isImport first = true := by
  obtain ⟨item, others, items⟩ := List.exists_cons_of_ne_nil (List.isEmpty_eq_false_iff.1 nonempty)
  refine ⟨(placement lines).indent ++ item, others.map ((placement lines).indent ++ ·) ++
    if rest.isEmpty then [] else [[]], ?_, ?_⟩
  · rw [Placement.block, noBlank, items]
    rfl
  · rw [isImport_blanks_append (allBlank_placement_indent lines)]
    exact accepted item (items ▸ List.mem_cons_self)

/-- The lines of a file above the place, those that give way and those that stay below. -/
theorem exists_lines_eq (lines : List Text) :
    ∃ old, lines = lines.take (placement lines).line ++ (old ++ keptBelow lines) ∧
      ∀ line ∈ old, isReplaced line = true := by
  refine ⟨(lines.drop (placement lines).line).takeWhile isReplaced, ?_,
    fun line member => List.mem_takeWhile_imp member⟩
  rw [keptBelow, List.takeWhile_append_dropWhile, List.take_append_drop]

/-- Placing imports leaves their place, what is above it and what stays below. -/
theorem place_placeImports (nonempty : imports.isEmpty = false)
    (accepted : ∀ s ∈ imports.items, isImport s = true) (lines : List Text) :
    placement (placeImports lines imports) = placement lines ∧
      (placeImports lines imports).take (placement lines).line =
        lines.take (placement lines).line ∧
      keptBelow (placeImports lines imports) = keptBelow lines := by
  obtain ⟨old, whole, oldGives⟩ := exists_lines_eq lines
  have newGives := isReplaced_of_mem_block accepted lines (keptBelow lines)
  have top : (lines.take (placement lines).line).length = (placement lines).line :=
    List.length_take_of_le (placement_line_le lines)
  have same : placement (placeImports lines imports) = placement lines := by
    have here : (placement (lines.take (placement lines).line ++ (old ++ keptBelow lines))).line =
        (lines.take (placement lines).line).length := by
      rw [← whole, top]
    have swapped := placement_swap here oldGives newGives
      (by rw [← whole]; exact exists_block_eq_cons nonempty accepted _)
    rwa [← whole, ← placeImports_of_nonempty nonempty] at swapped
  refine ⟨same, ?_, ?_⟩
  · rw [placeImports_of_nonempty nonempty, List.take_left' top]
  · rw [keptBelow, same, placeImports_of_nonempty nonempty, List.drop_left' top,
      List.dropWhile_append_of_pos newGives, keptBelow, List.dropWhile_idempotent]

/-- The set stands as one block in `result`, each declaration on a line of its own and in order,
with no more than blank lines put around it; the other lines are those of `lines`, of which only
such as give way were taken out, where the block stands. -/
def StandsInBlock (imports : ImportSet) (lines result : List Text) : Prop :=
  ∃ above old below indent before after,
    lines = above ++ (old ++ below) ∧ (∀ line ∈ old, isReplaced line = true) ∧
      result = above ++ (before ++ (imports.items.map (indent ++ ·) ++ (after ++ below))) ∧
      AllBlank indent ∧ ∀ line ∈ before ++ after, line = []

theorem standsInBlock_placeImports (nonempty : imports.isEmpty = false) (lines : List Text) :
    StandsInBlock imports lines (placeImports lines imports) := by
  obtain ⟨old, whole, gives⟩ := exists_lines_eq lines
  refine ⟨_, old, _, (placement lines).indent,
    if (placement lines).blankBefore then [[]] else [],
    if (keptBelow lines).isEmpty then [] else [[]], whole, gives, ?_,
    allBlank_placement_indent lines, ?_⟩
  · rw [placeImports_of_nonempty nonempty]
    simp [Placement.block]
  · intro line member
    rcases List.mem_append.1 member with inFront | behind
    · split at inFront
      · exact List.mem_singleton.1 inFront
      · cases inFront
    · split at behind
      · cases behind
      · exact List.mem_singleton.1 behind

/-- What is neither blank nor an import stays. -/
theorem filter_placeImports (accepted : ∀ s ∈ imports.items, isImport s = true)
    (lines : List Text) :
    (placeImports lines imports).filter (fun line => !isReplaced line) =
      lines.filter fun line => !isReplaced line := by
  have gone {given : List Text} (gives : ∀ line ∈ given, isReplaced line = true) :
      given.filter (fun line => !isReplaced line) = [] := by
    rw [List.filter_eq_nil_iff]
    intro line member
    rw [gives line member]
    decide
  cases nonempty : imports.isEmpty with
  | true => rw [placeImports, nonempty, if_pos rfl]
  | false =>
      obtain ⟨old, whole, gives⟩ := exists_lines_eq lines
      calc (placeImports lines imports).filter (fun line => !isReplaced line)
          = (lines.take (placement lines).line).filter (fun line => !isReplaced line) ++
              (keptBelow lines).filter (fun line => !isReplaced line) := by
            rw [placeImports_of_nonempty nonempty, List.filter_append, List.filter_append,
              gone (isReplaced_of_mem_block accepted lines _), List.nil_append]
        _ = (lines.take (placement lines).line ++ (old ++ keptBelow lines)).filter
              (fun line => !isReplaced line) := by
            rw [List.filter_append, List.filter_append, gone gives, List.nil_append]
        _ = lines.filter (fun line => !isReplaced line) := by rw [← whole]

/-- A set of trimmed declarations that holds all imports of a file is what the file imports once it
is placed. -/
theorem ofLines_placeImports (nonempty : imports.isEmpty = false)
    (accepted : ∀ s ∈ imports.items, isImport s = true)
    (trimmed : ∀ s ∈ imports.items, Text.trim s = s)
    (covers : ∀ s ∈ (ImportSet.ofLines lines).items, s ∈ imports.items) :
    ImportSet.ofLines (placeImports lines imports) = imports := by
  obtain ⟨above, old, below, indent, before, after, rfl, -, placed, blank, empty⟩ :=
    standsInBlock_placeImports nonempty lines
  have trims {s : Text} (member : s ∈ imports.items) : Text.trim (indent ++ s) = s := by
    rw [Text.trim_blanks_append blank, trimmed s member]
  apply ImportSet.ext_of_mem
  intro s
  rw [ImportSet.mem_ofLines, placed]
  constructor
  · rintro ⟨line, member, directive, rfl⟩
    have kept (given : line ∈ above ++ (old ++ below)) : Text.trim line ∈ imports.items :=
      covers _ (ImportSet.mem_ofLines.2 ⟨line, given, directive, rfl⟩)
    have shown (given : line ∈ before ++ after) : Text.trim line ∈ imports.items := by
      rw [empty line given] at directive
      cases directive
    simp only [List.mem_append, List.mem_map] at member
    rcases member with member | member | ⟨item, member, rfl⟩ | member | member
    · exact kept (List.mem_append_left _ member)
    · exact shown (List.mem_append_left _ member)
    · rwa [trims member]
    · exact shown (List.mem_append_right _ member)
    · exact kept (List.mem_append_right _ (List.mem_append_right _ member))
  · intro member
    refine ⟨indent ++ s, ?_, ?_, (trims member).symm⟩
    · simp [member]
    · rw [isImport_blanks_append blank]
      exact accepted s member

/-- Placing imports keeps every line that is neither blank nor an import, in order.  A set that
holds all imports of the file is what the file imports afterwards, and stands as one block in the
order of the bytes, so each declaration is in it once. -/
theorem placeImports_keeps_lines (lines declarations : List Text)
    (accepted : ∀ s ∈ (ImportSet.ofList declarations).items, isImport s = true) :
    (placeImports lines (.ofList declarations)).filter (fun line => !isReplaced line) =
        lines.filter (fun line => !isReplaced line) ∧
      (declarations ≠ [] →
        (∀ s ∈ (ImportSet.ofLines lines).items, s ∈ (ImportSet.ofList declarations).items) →
        ImportSet.ofLines (placeImports lines (.ofList declarations)) = .ofList declarations ∧
          StandsInBlock (.ofList declarations) lines (placeImports lines (.ofList declarations)) ∧
          (ImportSet.ofList declarations).items.Pairwise
            fun s t => encodeUtf8 s < encodeUtf8 t) := by
  refine ⟨filter_placeImports accepted lines, fun given covers => ?_⟩
  have nonempty : (ImportSet.ofList declarations).isEmpty = false := by
    obtain ⟨first, rest, rfl⟩ := List.exists_cons_of_ne_nil given
    have member := ImportSet.mem_ofList.2 ⟨first, List.mem_cons_self (l := rest), rfl⟩
    exact List.isEmpty_eq_false_iff.2 (List.ne_nil_of_mem member)
  have trimmed : ∀ s ∈ (ImportSet.ofList declarations).items, Text.trim s = s := by
    intro s member
    obtain ⟨declaration, -, rfl⟩ := ImportSet.mem_ofList.1 member
    exact Text.trim_trim declaration
  exact ⟨ofLines_placeImports nonempty accepted trimmed covers,
    standsInBlock_placeImports nonempty lines,
    (ImportSet.ofList declarations).ordered.imp Text.encodeUtf8_lt_iff.2⟩

namespace Sample

/-- A namespace whose brace is on a later line, with imports above, inside and in a comment. -/
def lateBrace : List Text := [
  "using System;".toList,
  "namespace App.Data // named".toList,
  "  ".toList,
  "\x7b".toList,
  "    using Zeta;".toList,
  "".toList,
  "\tusing App;".toList,
  "    class A \x7b \x7d".toList,
  "/*".toList,
  "using Zeta;".toList,
  "*/".toList]

def chosenImports : List Text := [
  " using Zeta;".toList,
  "using static System.Math;".toList,
  "using App;".toList,
  "using System;".toList,
  "using Zeta;".toList]

end Sample

theorem placeImports_keeps_lateBrace :
    (∀ s ∈ (ImportSet.ofList Sample.chosenImports).items, isImport s = true) ∧
      ImportSet.ofLines (placeImports Sample.lateBrace (.ofList Sample.chosenImports)) =
        .ofList Sample.chosenImports ∧
      placeImports Sample.lateBrace (.ofList Sample.chosenImports) =
        Sample.lateBrace.take 4 ++
          ["    using App;".toList,
            "    using System;".toList,
            "    using Zeta;".toList,
            "    using static System.Math;".toList,
            []] ++ Sample.lateBrace.drop 7 := by
  have accepted : ∀ s ∈ (ImportSet.ofList Sample.chosenImports).items, isImport s = true := by
    decide
  obtain ⟨-, placed⟩ := placeImports_keeps_lines Sample.lateBrace Sample.chosenImports accepted
  exact ⟨accepted, (placed (by decide) (by decide)).1, by decide⟩

namespace Sample

def firstImports : ImportSet := .ofList ["using Zeta;".toList, "using static App.Rows;".toList]

def laterImports : ImportSet := .ofList ["using System;".toList]

end Sample

/-- The last set that is placed decides, and placing the same set again changes nothing. -/
theorem placeImports_over_placed {first second : ImportSet} (lines : List Text)
    (accepted : ∀ s ∈ first.items, isImport s = true) (written : second.isEmpty = false) :
    placeImports (placeImports lines first) second = placeImports lines second ∧
      placeImports (placeImports lines first) first = placeImports lines first := by
  cases nonempty : first.isEmpty with
  | true =>
      have nothing (lines : List Text) : placeImports lines first = lines := by
        rw [placeImports, nonempty, if_pos rfl]
      rw [nothing, nothing]
      exact ⟨rfl, rfl⟩
  | false =>
      obtain ⟨place, above, below⟩ := place_placeImports nonempty accepted lines
      have decides {last : ImportSet} (written : last.isEmpty = false) :
          placeImports (placeImports lines first) last = placeImports lines last := by
        rw [placeImports_of_nonempty written, place, above, below,
          placeImports_of_nonempty written]
      exact ⟨decides written, decides nonempty⟩

theorem placeImports_over_lateBrace :
    (∀ s ∈ Sample.firstImports.items, isImport s = true) ∧
      Sample.laterImports.isEmpty = false ∧
      placeImports (placeImports Sample.lateBrace Sample.firstImports) Sample.laterImports =
        Sample.lateBrace.take 4 ++ ["    using System;".toList, []] ++ Sample.lateBrace.drop 7 := by
  have accepted : ∀ s ∈ Sample.firstImports.items, isImport s = true := by decide
  have written : Sample.laterImports.isEmpty = false := by decide
  exact ⟨accepted, written,
    (placeImports_over_placed Sample.lateBrace accepted written).1.trans (by decide)⟩

end MigrationSquash.Code
