import MigrationSquash.Proofs.Script.Outline

/-!
# The texts of an outline

What the texts of an outline hold and lack.  Main statements: each of them is trimmed and ends with
a semicolon, only the starts and ends of transactions control transactions, and neither a record nor
the creation of the history table holds what another search looks for.
-/

set_option autoImplicit false

namespace MigrationSquash.Script

open Text (AllBlank SameFolded foldCase isBlank isIndent isWord joinLines pieces Unbroken)

section Control

variable {line s t : Text}

theorem skipIndent_split (s : Text) :
    ∃ indent : Text, s = indent ++ skipIndent s ∧ ∀ c ∈ indent, isIndent c = true :=
  ⟨s.takeWhile isIndent, List.takeWhile_append_dropWhile.symm, fun _ member =>
    List.mem_takeWhile_imp member⟩

theorem isWord_of_sameFolded {read w : Text} (same : SameFolded read w)
    (words : ∀ c ∈ w, isWord c = true) : ∀ c ∈ read, isWord c = true := by
  induction w generalizing read with
  | nil =>
      obtain rfl := List.eq_nil_of_length_eq_zero same.length_eq
      exact nofun
  | cons p rest ih =>
      obtain ⟨c, more, rfl, first, later⟩ := Text.sameFolded_cons_iff.1 same
      refine List.forall_mem_cons.2
        ⟨?_, ih later fun d member => words d (List.mem_cons_of_mem _ member)⟩
      rw [Text.isWord_eq_of_foldCase_eq first]
      exact words p List.mem_cons_self

/-- A character that may stand before the semicolon of a line that controls a transaction. -/
def InControl (c : Char) : Prop := isIndent c = true ∨ isWord c = true

instance (c : Char) : Decidable (InControl c) := inferInstanceAs (Decidable (_ ∨ _))

theorem exists_of_afterFolded? {w rest : Text} (found : Text.afterFolded? w s = some rest)
    (words : w.all isWord = true) : ∃ read, s = read ++ rest ∧ ∀ c ∈ read, InControl c := by
  obtain ⟨read, split, same⟩ := Text.afterFolded?_eq_some_iff.1 found
  exact ⟨read, split, fun c member =>
    Or.inr (isWord_of_sameFolded same (List.all_eq_true.1 words) c member)⟩

theorem exists_of_afterWords? {first second rest : Text}
    (found : afterWords? first second s = some rest) (firstWord : first.all isWord = true)
    (secondWord : second.all isWord = true) :
    ∃ read, s = read ++ rest ∧ ∀ c ∈ read, InControl c := by
  obtain ⟨middle, foundFirst, later⟩ := Option.bind_eq_some_iff.1 found
  obtain ⟨start, rfl, startControl⟩ := exists_of_afterFolded? foundFirst firstWord
  obtain ⟨indent, split, allIndent⟩ := skipIndent_split middle
  dsimp only at later
  split at later
  · obtain ⟨stop, final, stopControl⟩ := exists_of_afterFolded? later secondWord
    refine ⟨start ++ (indent ++ stop), ?_, ?_⟩
    · rw [List.append_assoc, List.append_assoc, ← final, ← split]
    · simp only [List.forall_mem_append]
      exact ⟨startControl, fun c member => Or.inl (allIndent c member), stopControl⟩
  · cases later

/-- A line that controls a transaction is some words up to a semicolon. -/
theorem exists_of_control (control : (transactionControl? line).isSome = true) :
    ∃ words blanks, line = words ++ ';' :: blanks ∧ (∀ c ∈ words, InControl c) ∧
      ∀ c ∈ blanks, InControl c := by
  obtain ⟨indent, split, allIndent⟩ := skipIndent_split line
  have close {rest tail : Text} (found : skipIndent rest = ';' :: tail)
      (ends : (skipIndent tail).isEmpty = true) (read : Text)
      (begins : skipIndent line = read ++ rest) (controls : ∀ c ∈ read, InControl c) :
      ∃ words blanks, line = words ++ ';' :: blanks ∧ (∀ c ∈ words, InControl c) ∧
        ∀ c ∈ blanks, InControl c := by
    obtain ⟨gap, splitRest, allGap⟩ := skipIndent_split rest
    obtain ⟨blanks, splitTail, allBlanks⟩ := skipIndent_split tail
    rw [List.isEmpty_iff] at ends
    rw [ends, List.append_nil] at splitTail
    refine ⟨indent ++ (read ++ gap), tail, ?_, ?_, ?_⟩
    · rw [List.append_assoc, List.append_assoc, ← found, ← splitRest, ← begins, ← split]
    · simp only [List.forall_mem_append]
      exact ⟨fun c member => Or.inl (allIndent c member), controls,
        fun c member => Or.inl (allGap c member)⟩
    · rw [splitTail]
      exact fun c member => Or.inl (allBlanks c member)
  rw [transactionControl?] at control
  split at control
  · rename_i started
    obtain ⟨rest, starts, ends⟩ := (Option.any_eq_true _ _).1 started
    have read : ∃ read, skipIndent line = read ++ rest ∧ ∀ c ∈ read, InControl c := by
      rcases Option.or_eq_some_iff.1 starts with begins | ⟨-, begins⟩
      · exact exists_of_afterWords? begins (by decide) (by decide)
      · exact exists_of_afterWords? begins (by decide) (by decide)
    obtain ⟨read, begins, controls⟩ := read
    split at ends
    · next tail found => exact close found ends read begins controls
    · cases ends
  · split at control
    · rename_i committed
      obtain ⟨rest, starts, ends⟩ := (Option.any_eq_true _ _).1 committed
      obtain ⟨read, begins, controls⟩ := exists_of_afterFolded? starts (by decide)
      split at ends
      · next tail found => exact close found ends read begins controls
      · cases ends
    · cases control

theorem transactionControl?_of_mem {c : Char} (member : c ∈ line) (apart : ¬ InControl c)
    (other : c ≠ ';') : transactionControl? line = none := by
  rw [← Option.not_isSome_iff_eq_none]
  intro control
  obtain ⟨words, blanks, rfl, wordsControl, blanksControl⟩ := exists_of_control control
  rcases List.mem_append.1 member with inside | behind
  · exact apart (wordsControl c inside)
  · rcases List.mem_cons.1 behind with same | later
    · exact other same
    · exact apart (blanksControl c later)

theorem transactionControl?_of_not_mem (absent : ';' ∉ line) : transactionControl? line = none := by
  rw [← Option.not_isSome_iff_eq_none]
  intro control
  obtain ⟨words, blanks, rfl, -⟩ := exists_of_control control
  exact absent (List.mem_append_right _ List.mem_cons_self)

theorem mem_pieces_append_unbroken (unbroken : Unbroken t) (member : line ∈ pieces (s ++ t)) :
    line ∈ pieces s ∨ ∃ start, line = start ++ t := by
  obtain ⟨front, last, split, longer⟩ := Text.exists_pieces_append unbroken s
  rw [longer] at member
  rw [split]
  rcases List.mem_append.1 member with inFront | isLast
  · exact Or.inl (List.mem_append_left _ inFront)
  · exact Or.inr ⟨last, List.mem_singleton.1 isLast⟩

/-- A text whose semicolons all stand in its last line, behind a character that no control line
holds. -/
theorem uncontrolled_append {c : Char} (absent : ';' ∉ s) (unbroken : Unbroken t) (member : c ∈ t)
    (apart : ¬ InControl c) (other : c ≠ ';') : Uncontrolled (s ++ t) := by
  intro line inside
  rcases mem_pieces_append_unbroken unbroken inside with early | ⟨start, rfl⟩
  · exact transactionControl?_of_not_mem (Text.not_mem_of_mem_pieces absent early)
  · exact transactionControl?_of_mem (List.mem_append_right start member) apart other

end Control

section Length

variable {depth depth' depth'' : Nat} {quote quote' quote'' : Option Char} {s t : Text}

/-- A statement that goes on behind a text, inside `depth'` parentheses and perhaps inside quotes
there. -/
def Passes (depth : Nat) (quote : Option Char) (s : Text) (depth' : Nat) (quote' : Option Char) :
    Prop :=
  ∀ t, statementLength depth quote (s ++ t) = statementLength depth' quote' t + s.length

/-- A statement that ends where a text ends. -/
def Ends (depth : Nat) (quote : Option Char) (s : Text) : Prop :=
  ∀ t, statementLength depth quote (s ++ t) = s.length

theorem Passes.append (first : Passes depth quote s depth' quote')
    (second : Passes depth' quote' t depth'' quote'') :
    Passes depth quote (s ++ t) depth'' quote'' := by
  intro rest
  rw [List.append_assoc, first, second, List.length_append, Nat.add_assoc, Nat.add_comm t.length]

theorem Passes.ends (first : Passes depth quote s depth' quote') (second : Ends depth' quote' t) :
    Ends depth quote (s ++ t) := by
  intro rest
  rw [List.append_assoc, first, second, List.length_append, Nat.add_comm]

theorem passes_quoted {q : Char} (absent : q ∉ s) : Passes depth (some q) s depth (some q) := by
  intro t
  induction s with
  | nil => rfl
  | cons c rest ih =>
      have other : c ≠ q := fun same => absent (same ▸ List.mem_cons_self)
      rw [List.cons_append, statementLength, if_neg other,
        ih fun member => absent (List.mem_cons_of_mem _ member)]
      rfl

/-- A character that neither quotes nor encloses nor ends a statement. -/
def Inner (c : Char) : Prop := c ≠ '\'' ∧ c ≠ '"' ∧ c ≠ '(' ∧ c ≠ ')' ∧ c ≠ ';'

instance (c : Char) : Decidable (Inner c) := inferInstanceAs (Decidable (_ ∧ _))

theorem passes_inner (inner : ∀ c ∈ s, Inner c) : Passes depth none s depth none := by
  intro t
  induction s with
  | nil => rfl
  | cons c rest ih =>
      obtain ⟨noApostrophe, noQuote, noOpening, noClosing, noEnd⟩ := inner c List.mem_cons_self
      rw [List.cons_append, statementLength,
        ih fun d member => inner d (List.mem_cons_of_mem _ member)]
      simp [noApostrophe, noQuote, noOpening, noClosing, noEnd, Nat.add_assoc]

theorem inner_of_isBlank {c : Char} (blank : isBlank c = true) : Inner c := by
  refine ⟨?_, ?_, ?_, ?_, ?_⟩ <;>
    (rintro rfl; exact absurd blank (by decide))

theorem passes_balanced (balanced : depthBehind? depth quote s = some depth') :
    Passes (depth + 1) quote s (depth' + 1) none := by
  intro t
  fun_induction depthBehind? depth quote s with
  | case1 depth =>
      obtain rfl := Option.some.inj balanced
      rfl
  | case2 => cases balanced
  | case3 depth quote c rest ih =>
      rw [List.cons_append, statementLength, ih balanced]
      rfl
  | case4 depth c rest quotes ih =>
      rw [List.cons_append, statementLength, if_pos (by simpa using quotes), ih balanced]
      rfl
  | case5 depth rest noQuote ih =>
      rw [List.cons_append, statementLength, if_neg (by decide), if_pos rfl, ih balanced]
      rfl
  | case6 => cases balanced
  | case7 rest noQuote noOpening outer ih =>
      rw [List.cons_append, statementLength, if_neg (by decide), if_neg (by decide), if_pos rfl,
        Nat.add_sub_cancel, ih balanced]
      rfl
  | case8 depth c rest noQuote noOpening noClosing ih =>
      rw [List.cons_append, statementLength, if_neg noQuote, if_neg noOpening, if_neg noClosing,
        if_neg (by simp), ih balanced]
      rfl

end Length

namespace Identifier

variable {name : Text}

theorem not_mem (identifier : Identifier name) {c : Char} (noWord : isWord c = false) :
    c ∉ name := by
  intro member
  rw [identifier.word c member] at noWord
  cases noWord

theorem noBlank (identifier : Identifier name) : ∀ c ∈ name, isBlank c = false :=
  fun c member => Text.isBlank_eq_false_of_isWord (identifier.word c member)

end Identifier

section Record

variable {table : Text} (identifier : Identifier table) (record : Record)

theorem Value.not_mem (value : Value) : '\'' ∉ value.text ∧ '\n' ∉ value.text :=
  ⟨fun member => (value.plain _ member).1 rfl, fun member => (value.plain _ member).2.2 rfl⟩

/-- The text of a record up to the first value. -/
def Record.lead (table : Text) (record : Record) : Text :=
  record.verb.1 ++ (' ' :: (record.verb.2 ++ (' ' :: '"' :: (table ++ ('"' :: record.front)))))

theorem Record.text_eq (table : Text) (record : Record) :
    record.text table = record.lead table ++ record.back := by
  simp only [Record.text, Record.lead, List.append_assoc, List.cons_append]

/-- The values that stand in a record. -/
def Record.values : Record → List Value
  | insertion _ _ _ id version => [id, version]
  | deletion _ id => [id]

theorem passes_name {name : Text} (identifier : Identifier name) {depth : Nat} :
    Passes depth (some '"') name depth (some '"') :=
  passes_quoted (identifier.not_mem (by decide))

theorem passes_gap {gap : Text} (blank : AllBlank gap) {depth : Nat} :
    Passes depth none gap depth none :=
  passes_inner fun c member => inner_of_isBlank (blank c member)

theorem Record.passes_lead (identifier : Identifier table) :
    Passes 0 none (record.lead table) (match record with
      | insertion .. => 1
      | deletion .. => 0) none := by
  cases record with
  | insertion idColumn versionColumn gap id version =>
      have verb : Passes 0 none "INSERT INTO \"".toList 0 (some '"') := fun _ => rfl
      have opening : Passes 0 (some '"') "\" (\"".toList 1 (some '"') := fun _ => rfl
      have comma : Passes 1 (some '"') "\", \"".toList 1 (some '"') := fun _ => rfl
      have closing : Passes 1 (some '"') "\")".toList 0 none := fun _ => rfl
      have values : Passes 0 none "VALUES (".toList 1 none := fun _ => rfl
      have whole := verb.append ((passes_name identifier).append (opening.append
        ((passes_name idColumn.2).append (comma.append ((passes_name versionColumn.2).append
          (closing.append ((passes_gap gap.2).append values)))))))
      exact whole
  | deletion gap id =>
      have verb : Passes 0 none "DELETE FROM \"".toList 0 (some '"') := fun _ => rfl
      have closing : Passes 0 (some '"') "\"".toList 0 none := fun _ => rfl
      have condition : Passes 0 none "WHERE \"MigrationId\" = ".toList 0 none := fun _ => rfl
      exact verb.append ((passes_name identifier).append (closing.append
        ((passes_gap gap.2).append condition)))

theorem Record.ends (identifier : Identifier table) : Ends 0 none (record.text table) := by
  rw [Record.text_eq]
  refine (record.passes_lead identifier).ends ?_
  cases record with
  | insertion idColumn versionColumn gap id version =>
      have opening : Passes 1 none ['\''] 1 (some '\'') := fun _ => rfl
      have comma : Passes 1 (some '\'') "', '".toList 1 (some '\'') := fun _ => rfl
      have closing : Ends 1 (some '\'') "');".toList := fun _ => rfl
      exact opening.ends ((passes_quoted id.not_mem.1).ends (comma.ends
        ((passes_quoted version.not_mem.1).ends closing)))
  | deletion gap id =>
      have opening : Passes 0 none ['\''] 0 (some '\'') := fun _ => rfl
      have closing : Ends 0 (some '\'') "';".toList := fun _ => rfl
      exact opening.ends ((passes_quoted id.not_mem.1).ends closing)

theorem Definition.ends (identifier : Identifier table) (definition : Definition table) :
    Ends 0 none definition.text := by
  have words : Passes 0 none "CREATE TABLE IF NOT EXISTS ".toList 0 none := fun _ => rfl
  have quote : Passes 0 none ['"'] 0 (some '"') := fun _ => rfl
  have opening : Passes 0 (some '"') ['"', ' ', '('] 1 none := fun _ => rfl
  have closing : Ends 1 none [')', ';'] := fun _ => rfl
  exact words.ends (quote.ends ((passes_name identifier).ends (opening.ends
    ((passes_balanced definition.balanced).ends closing))))

/-- A character of the text of a record up to the first value. -/
def InLead (c : Char) : Prop := isWord c = true ∨ isBlank c = true ∨ c ∈ "\"(),=".toList

instance (c : Char) : Decidable (InLead c) := inferInstanceAs (Decidable (_ ∨ _))

theorem Record.mem_lead (identifier : Identifier table) : ∀ c ∈ record.lead table, InLead c := by
  have word {name : Text} (identifier : Identifier name) : ∀ c ∈ name, InLead c :=
    fun c member => Or.inl (identifier.word c member)
  have blank {gap : Text} (allBlank : AllBlank gap) : ∀ c ∈ gap, InLead c :=
    fun c member => Or.inr (Or.inl (allBlank c member))
  have join {s t : Text} (first : ∀ c ∈ s, InLead c) (second : ∀ c ∈ t, InLead c) :
      ∀ c ∈ s ++ t, InLead c := List.forall_mem_append.2 ⟨first, second⟩
  cases record with
  | insertion idColumn versionColumn gap id version =>
      have verb : ∀ c ∈ "INSERT INTO \"".toList, InLead c :=
        List.all_iff_forall_prop.1 (by decide)
      have opening : ∀ c ∈ "\" (\"".toList, InLead c :=
        List.all_iff_forall_prop.1 (by decide)
      have comma : ∀ c ∈ "\", \"".toList, InLead c :=
        List.all_iff_forall_prop.1 (by decide)
      have closing : ∀ c ∈ "\")".toList, InLead c :=
        List.all_iff_forall_prop.1 (by decide)
      have values : ∀ c ∈ "VALUES (".toList, InLead c :=
        List.all_iff_forall_prop.1 (by decide)
      have whole := join verb (join (word identifier) (join opening (join (word idColumn.2)
        (join comma (join (word versionColumn.2) (join closing (join (blank gap.2) values)))))))
      exact whole
  | deletion gap id =>
      have verb : ∀ c ∈ "DELETE FROM \"".toList, InLead c :=
        List.all_iff_forall_prop.1 (by decide)
      have closing : ∀ c ∈ "\"".toList, InLead c :=
        List.all_iff_forall_prop.1 (by decide)
      have condition : ∀ c ∈ "WHERE \"MigrationId\" = ".toList, InLead c :=
        List.all_iff_forall_prop.1 (by decide)
      have whole :=
        join verb (join (word identifier) (join closing (join (blank gap.2) condition)))
      exact whole

theorem Record.unbroken_back : Unbroken record.back := by
  have quoted (value : Value) {s : Text} (unbroken : Unbroken s) :
      Unbroken ('\'' :: (value.text ++ s)) :=
    Unbroken.append (by decide : '\n' ∉ ['\'']) (Unbroken.append value.not_mem.2 unbroken)
  cases record with
  | insertion idColumn versionColumn gap id version =>
      have comma : Unbroken "', '".toList := (by decide : '\n' ∉ "', '".toList)
      have closing : Unbroken "');".toList := (by decide : '\n' ∉ "');".toList)
      exact quoted id (comma.append (Unbroken.append version.not_mem.2 closing))
  | deletion gap id => exact quoted id (by decide : '\n' ∉ "';".toList)

theorem Record.uncontrolled (identifier : Identifier table) :
    Uncontrolled (record.text table) := by
  rw [Record.text_eq]
  have absent : ';' ∉ record.lead table := fun member =>
    absurd (record.mem_lead identifier _ member) (by decide)
  have member : '\'' ∈ record.back := by cases record <;> exact List.mem_cons_self
  exact uncontrolled_append absent record.unbroken_back member (by decide) (by decide)

end Record

section Lacks

variable {first second s t : Text}

/-- A phrase that no fixed part of a record holds. -/
structure Foreign (first second : Text) : Prop where
  starts : first.head?.any (!isBlank ·) = true
  avoids : ∀ c ∈ "\"'();".toList, Avoids first second c
  lacks : ∀ s ∈ ["INSERT INTO ", "DELETE FROM ", " ", ", ", "VALUES ", "WHERE ", " = "],
    Lacks (phrase [first, second]) s.toList

theorem foreign_opensBlock : Foreign "DO".toList blockMarker :=
  ⟨by decide, List.all_iff_forall_prop.1 (by decide +kernel), by decide +kernel⟩

theorem foreign_opensGuard : Foreign "IF".toList "OBJECT_ID".toList :=
  ⟨by decide, List.all_iff_forall_prop.1 (by decide +kernel), by decide +kernel⟩

theorem foreign_opensTable : Foreign "CREATE".toList "TABLE".toList :=
  ⟨by decide, List.all_iff_forall_prop.1 (by decide +kernel), by decide +kernel⟩

variable (foreign : Foreign first second)
include foreign

theorem Foreign.append_cons {c : Char} (separates : c ∈ "\"'();".toList)
    (before : Lacks (phrase [first, second]) s) (behind : Lacks (phrase [first, second]) t) :
    Lacks (phrase [first, second]) (s ++ c :: t) :=
  lacks_phrase_append_cons (foreign.avoids c separates) before behind

theorem Foreign.blanks_append {gap : Text} (blank : AllBlank gap)
    (lacks : Lacks (phrase [first, second]) s) : Lacks (phrase [first, second]) (gap ++ s) := by
  rw [(spells_phrase first second).lacks_iff] at lacks ⊢
  intro read phrased inside
  refine lacks read phrased ?_
  obtain ⟨start, blanks, stop, rfl, same, -⟩ := phrased
  obtain ⟨c, begins, visible⟩ := (Option.any_eq_true _ _).1 foreign.starts
  obtain ⟨more, rfl⟩ := List.head?_eq_some_iff.1 begins
  obtain ⟨d, others, rfl, folded, -⟩ := Text.sameFolded_cons_iff.1 same
  induction gap with
  | nil => exact inside
  | cons e rest ih =>
      rcases List.infix_cons_iff.1 inside with ⟨further, split⟩ | later
      · obtain ⟨rfl, -⟩ := List.cons.inj split
        have blankFirst := blank d List.mem_cons_self
        rw [Text.isBlank_eq_of_foldCase_eq folded] at blankFirst
        rw [blankFirst] at visible
        cases visible
      · exact ih (fun c member => blank c (List.mem_cons_of_mem _ member)) later

theorem Foreign.record {table : Text} (identifier : Identifier table) (record : Record)
    (values : ∀ value ∈ record.values, Lacks (phrase [first, second]) value.text) :
    Lacks (phrase [first, second]) (record.text table) := by
  have fixed (s : String) (member : s ∈ ["INSERT INTO ", "DELETE FROM ", " ", ", ", "VALUES ",
    "WHERE ", " = "]) := foreign.lacks s member
  have none : Lacks (phrase [first, second]) [] := lacks_phrase_of_no_blank nofun
  have name {name : Text} (identifier : Identifier name) : Lacks (phrase [first, second]) name :=
    lacks_phrase_of_no_blank identifier.noBlank
  have quote {s t : Text} := @Foreign.append_cons _ _ s t foreign '"' (by decide)
  have apostrophe {s t : Text} := @Foreign.append_cons _ _ s t foreign '\'' (by decide)
  have opening {s t : Text} := @Foreign.append_cons _ _ s t foreign '(' (by decide)
  have closing {s t : Text} := @Foreign.append_cons _ _ s t foreign ')' (by decide)
  have stop {s t : Text} := @Foreign.append_cons _ _ s t foreign ';' (by decide)
  rw [Record.text_eq]
  cases record with
  | insertion idColumn versionColumn gap id version =>
      have idLacks := values id List.mem_cons_self
      have versionLacks := values version (List.mem_cons_of_mem _ List.mem_cons_self)
      have valued := opening (foreign.blanks_append gap.2 (fixed "VALUES " (by decide))) none
      rw [List.append_assoc] at valued
      have columns := opening (fixed " " (by decide)) (quote none (quote (name idColumn.2)
        (quote (fixed ", " (by decide)) (quote (name versionColumn.2) (closing none valued)))))
      have lead := quote (fixed "INSERT INTO " (by decide)) (quote (name identifier) columns)
      exact apostrophe lead (apostrophe idLacks (apostrophe (fixed ", " (by decide))
        (apostrophe versionLacks (closing none (stop none none)))))
  | deletion gap id =>
      have idLacks := values id List.mem_cons_self
      have column : Lacks (phrase [first, second]) "MigrationId".toList :=
        lacks_phrase_of_no_blank
          (by simpa using (by decide : "MigrationId".toList.all (!isBlank ·) = true))
      have condition := quote (foreign.blanks_append gap.2 (fixed "WHERE " (by decide)))
        (quote column (fixed " = " (by decide)))
      rw [List.append_assoc] at condition
      have lead := quote (fixed "DELETE FROM " (by decide)) (quote (name identifier) condition)
      exact apostrophe lead (apostrophe idLacks (stop none none))

end Lacks

section Dotted

variable {table s t : Text} {c : Char}

theorem undotted_of_no_dot (absent : '.' ∉ s) : Undotted s := by
  rintro _ ⟨close, blanks, rfl, -⟩ inside
  exact absent (inside.subset (by simp))

theorem undotted_of_no_close (absent : ∀ c ∈ s, c ≠ ']' ∧ c ≠ '"') : Undotted s := by
  rintro _ ⟨close, blanks, rfl, closes, -⟩ inside
  obtain ⟨noBracket, noQuote⟩ := absent close (inside.subset List.mem_cons_self)
  exact closes.elim noBracket noQuote

theorem Undotted.append_cons (visible : isBlank c = false) (other : c ∉ "]\".".toList)
    (before : Undotted s) (behind : Undotted t) : Undotted (s ++ c :: t) := by
  intro read dotted inside
  have absent : c ∉ read := by
    obtain ⟨close, blanks, rfl, closes, blank⟩ := dotted
    simp only [List.mem_cons, List.mem_append, List.not_mem_nil, or_false]
    rintro (rfl | member | rfl)
    · rcases closes with rfl | rfl <;> exact other (by decide)
    · rw [blank c member] at visible
      cases visible
    · exact other (by decide)
  exact (infix_of_append_cons absent inside).elim (before read dotted) (behind read dotted)

theorem Record.undotted (identifier : Identifier table) (record : Record) :
    Undotted (record.text table) := by
  have lead : Undotted (record.lead table) := undotted_of_no_dot fun member =>
    absurd (record.mem_lead identifier _ member) (by decide)
  have fixed {s : Text} (absent : '.' ∉ s) : Undotted s := undotted_of_no_dot absent
  have apostrophe {s t : Text} := @Undotted.append_cons s t '\'' (by decide) (by decide)
  rw [Record.text_eq]
  cases record with
  | insertion idColumn versionColumn gap id version =>
      have comma : Undotted ", ".toList := fixed (by decide)
      have closing : Undotted ");".toList := fixed (by decide)
      exact apostrophe lead (apostrophe id.undotted (apostrophe comma
        (apostrophe version.undotted closing)))
  | deletion gap id =>
      have closing : Undotted ";".toList := fixed (by decide)
      exact apostrophe lead (apostrophe id.undotted closing)

end Dotted

section Creation

variable {table : Text} {first second : Text}

/-- A phrase that the columns of the history table lack, its creation lacks. -/
theorem Definition.lacks (identifier : Identifier table) (definition : Definition table)
    (avoids : ∀ c ∈ "\"()".toList, Avoids first second c)
    (fixed : ∀ s ∈ ["CREATE TABLE IF NOT EXISTS ".toList, [' '], [';']],
      Lacks (phrase [first, second]) s)
    (columns : Lacks (phrase [first, second]) definition.columns) :
    Lacks (phrase [first, second]) definition.text := by
  have name : Lacks (phrase [first, second]) table := lacks_phrase_of_no_blank identifier.noBlank
  have closed := lacks_phrase_append_cons (avoids ')' (by decide)) columns (fixed [';'] (by decide))
  have opened := lacks_phrase_append_cons (avoids '(' (by decide)) (fixed [' '] (by decide)) closed
  have named := lacks_phrase_append_cons (avoids '"' (by decide)) name opened
  exact lacks_phrase_append_cons (avoids '"' (by decide)) (fixed _ List.mem_cons_self) named

end Creation

namespace Item

variable {table : Text}

theorem getLast?_text (item : Item table) : item.text.getLast? = some ';' := by
  have ended {s t : Text} (ends : t.getLast? = some ';') : (s ++ t).getLast? = some ';' := by
    rw [List.getLast?_append, ends, Option.some_or]
  cases item with
  | preamble block =>
      have whole := @ended "DO $EF$".toList _ (@ended block.inner "END $EF$;".toList rfl)
      exact whole
  | creation definition =>
      have columns := @ended ['"', ' ', '('] _ (@ended definition.columns [')', ';'] rfl)
      exact @ended _ _ (@ended ['"'] _ (@ended table _ columns))
  | start => rfl
  | own statement => exact statement.ends
  | entry record =>
      have back : record.back.getLast? = some ';' := by
        cases record with
        | insertion idColumn versionColumn gap id version =>
            have values := @ended "', '".toList _ (@ended version.text "');".toList rfl)
            have whole := @ended ('\'' :: id.text) _ values
            exact whole
        | deletion gap id =>
            have whole := @ended ('\'' :: id.text) "';".toList rfl
            exact whole
      have whole := @ended (record.lead table) _ back
      rwa [← Record.text_eq] at whole
  | commit => rfl

end Item

end MigrationSquash.Script
