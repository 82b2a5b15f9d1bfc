import MigrationSquash.Proofs.Scan.Blanks
import MigrationSquash.Proofs.Text.Lines
import MigrationSquash.Script.Sanitize

/-!
# Scripts in rows

A script is laid out in rows: texts that neither start nor end with a blank, and blank lines
before, between and behind them.  Main statement: shortening runs of blank lines and trimming
the ends shortens the runs in each text, leaves at most two blank lines between two texts and
none outside.
-/

set_option autoImplicit false

namespace MigrationSquash.Script

open Text (AllBlank isBlank isIndent joinLines trim)

/-- A text that neither starts nor ends with a blank. -/
structure Trimmed (s : Text) : Prop where
  starts : ∃ c rest, s = c :: rest ∧ isBlank c = false
  ends : ∃ front c, s = front ++ [c] ∧ isBlank c = false

theorem trimmed_iff {s : Text} :
    Trimmed s ↔ s.head?.any (!isBlank ·) = true ∧ s.getLast?.any (!isBlank ·) = true := by
  simp only [Option.any_eq_true, Bool.not_eq_true']
  constructor
  · rintro ⟨⟨c, rest, split, starts⟩, front, d, final, ends⟩
    exact ⟨⟨c, by rw [split]; rfl, starts⟩, d, by rw [final, List.getLast?_concat], ends⟩
  · rintro ⟨⟨c, first, starts⟩, d, last, ends⟩
    obtain ⟨rest, split⟩ := List.head?_eq_some_iff.1 first
    obtain ⟨front, final⟩ := List.getLast?_eq_some_iff.1 last
    exact ⟨⟨c, rest, split, starts⟩, front, d, final, ends⟩

instance (s : Text) : Decidable (Trimmed s) := decidable_of_iff _ trimmed_iff.symm

/-- The script with these rows, of which `none` is a blank line. -/
def ofRows (rows : List (Option Text)) : Text := joinLines (rows.map (·.getD []))

/-- The texts of the rows and what is between them, where `blank` lines are between the last
text and the first row if there is a last text. -/
def layOutFrom : Option Nat → List (Option Text) → Text
  | _, [] => []
  | none, none :: rest => layOutFrom none rest
  | none, some s :: rest => s ++ layOutFrom (some 0) rest
  | some blank, none :: rest => layOutFrom (some (blank + 1)) rest
  | some blank, some s :: rest =>
      List.replicate (min blank 2 + 1) '\n' ++ (s ++ layOutFrom (some 0) rest)

/-- The texts of the rows with the blank lines between them, but at most two. -/
def layOut (rows : List (Option Text)) : Text := layOutFrom none rows

/-- A text without more than two blank lines one after the other. -/
def NoGap (s : Text) : Prop :=
  ∀ before after, s = before ++ '\n' :: after → (blankLines 0 after).1 < 3

section Blank

variable {c : Char} {s t : Text}

theorem not_isIndent_of_visible (visible : isBlank c = false) : isIndent c = false := by
  cases indent : isIndent c with
  | false => rfl
  | true =>
      rw [Text.isBlank_of_isIndent indent] at visible
      cases visible

theorem ne_feed_of_visible (visible : isBlank c = false) : c ≠ '\n' := by
  rintro rfl
  exact absurd visible (by decide)

theorem blankLines_of_visible (visible : isBlank c = false) (pending : Nat) (rest : Text) :
    blankLines pending (c :: rest) = (0, 0) := by
  rw [blankLines, if_neg (ne_feed_of_visible visible), not_isIndent_of_visible visible]
  rfl

/-- Blank lines before a character that is not blank end before it. -/
theorem blankLines_append_visible (visible : isBlank c = false) (pending : Nat) (s t : Text) :
    blankLines pending (s ++ c :: t) = blankLines pending (s ++ [c]) ∧
      (blankLines pending (s ++ [c])).2 ≤ pending + s.length := by
  induction s generalizing pending with
  | nil =>
      rw [List.nil_append, List.nil_append, blankLines_of_visible visible,
        blankLines_of_visible visible]
      exact ⟨rfl, Nat.zero_le _⟩
  | cons d rest ih =>
      rw [List.cons_append, List.cons_append, blankLines, blankLines, List.length_cons]
      split
      · obtain ⟨same, bound⟩ := ih 0
        rw [same]
        exact ⟨rfl, by dsimp only; omega⟩
      · split
        · obtain ⟨same, bound⟩ := ih (pending + 1)
          exact ⟨same, by omega⟩
        · exact ⟨rfl, Nat.zero_le _⟩

theorem blankLines_feeds (count : Nat) (starts : ∀ c ∈ t.head?, isBlank c = false) :
    blankLines 0 (List.replicate count '\n' ++ t) = (count, count) := by
  induction count with
  | zero =>
      cases t with
      | nil => rfl
      | cons c rest => exact blankLines_of_visible (starts c rfl) 0 rest
  | succ count ih =>
      rw [List.replicate_succ, List.cons_append, blankLines, if_pos rfl, ih]
      exact Prod.ext rfl (by dsimp only; omega)

theorem blankLines_le (pending : Nat) (s : Text) :
    (blankLines pending s).1 ≤ (blankLines pending s).2 ∧
      (blankLines pending s).2 ≤ pending + s.length := by
  induction s generalizing pending with
  | nil => exact ⟨Nat.le_refl _, Nat.zero_le _⟩
  | cons c rest ih =>
      rw [blankLines, List.length_cons]
      split
      · have later := ih 0
        dsimp only
        omega
      · split
        · have later := ih (pending + 1)
          omega
        · exact ⟨Nat.le_refl _, Nat.zero_le _⟩

end Blank

section Collapse

variable {c : Char} {s t : Text}

theorem collapseFrom_cons (c : Char) (rest : Text) :
    collapseFrom 0 (c :: rest) =
      if c = '\n' ∧ 3 ≤ (blankLines 0 rest).1 then
        ['\n', '\n', '\n'] ++ collapseFrom (blankLines 0 rest).2 rest
      else c :: collapseFrom 0 rest := by
  simp only [collapseFrom, Bool.and_eq_true, decide_eq_true_eq]

theorem collapseFrom_append (s t : Text) : collapseFrom s.length (s ++ t) = collapseFrom 0 t := by
  induction s with
  | nil => rfl
  | cons c rest ih => exact ih

theorem collapseFrom_visible (visible : isBlank c = false) (t : Text) :
    collapseFrom 0 (c :: t) = c :: collapseFrom 0 t := by
  rw [collapseFrom_cons, if_neg fun gap => ne_feed_of_visible visible gap.1]

/-- A run of blank lines does not go on behind a character that is not blank. -/
theorem collapseFrom_append_visible (visible : isBlank c = false) {skip : Nat} {s : Text}
    (inside : skip ≤ s.length) (t : Text) :
    collapseFrom skip (s ++ c :: t) = collapseFrom skip (s ++ [c]) ++ collapseFrom 0 t := by
  induction s generalizing skip with
  | nil =>
      obtain rfl := Nat.le_zero.1 inside
      rw [List.nil_append, List.nil_append, collapseFrom_visible visible,
        collapseFrom_visible visible]
      rfl
  | cons d rest ih =>
      cases skip with
      | succ skip => exact ih (Nat.le_of_succ_le_succ inside)
      | zero =>
          obtain ⟨same, bound⟩ := blankLines_append_visible visible 0 rest t
          rw [List.cons_append, List.cons_append, collapseFrom_cons, collapseFrom_cons, same]
          split
          · rw [ih (by omega), List.append_assoc]
          · rw [ih (Nat.zero_le _)]
            rfl

theorem exists_collapseFrom_concat (visible : isBlank c = false) {skip : Nat} {s : Text}
    (inside : skip ≤ s.length) : ∃ front, collapseFrom skip (s ++ [c]) = front ++ [c] := by
  induction s generalizing skip with
  | nil =>
      obtain rfl := Nat.le_zero.1 inside
      exact ⟨[], collapseFrom_visible visible []⟩
  | cons d rest ih =>
      cases skip with
      | succ skip => exact ih (Nat.le_of_succ_le_succ inside)
      | zero =>
          obtain ⟨-, bound⟩ := blankLines_append_visible visible 0 rest []
          rw [List.cons_append, collapseFrom_cons]
          split
          · have fits : (blankLines 0 (rest ++ [c])).2 ≤ rest.length := by omega
            obtain ⟨front, found⟩ := ih fits
            exact ⟨['\n', '\n', '\n'] ++ front, by rw [found, List.append_assoc]⟩
          · obtain ⟨front, found⟩ := ih (Nat.zero_le rest.length)
            exact ⟨d :: front, by rw [found]; rfl⟩

theorem Trimmed.collapse (trimmed : Trimmed s) : Trimmed (collapseFrom 0 s) := by
  obtain ⟨⟨c, rest, split, visible⟩, front, d, ending, last⟩ := trimmed
  refine ⟨⟨c, collapseFrom 0 rest, by rw [split, collapseFrom_visible visible], visible⟩, ?_⟩
  obtain ⟨before, found⟩ := exists_collapseFrom_concat last (Nat.zero_le front.length)
  exact ⟨before, d, by rw [ending, found], last⟩

/-- Of a run of blank lines two are left. -/
theorem collapseFrom_feeds (count : Nat) (starts : ∀ c ∈ t.head?, isBlank c = false) :
    collapseFrom 0 (List.replicate (count + 1) '\n' ++ t) =
      List.replicate (min count 2 + 1) '\n' ++ collapseFrom 0 t := by
  by_cases few : count < 3
  · induction count with
    | zero =>
        rw [List.replicate_succ, List.cons_append, collapseFrom_cons, blankLines_feeds 0 starts]
        rfl
    | succ count ih =>
        rw [List.replicate_succ, List.cons_append, collapseFrom_cons, blankLines_feeds _ starts,
          if_neg fun gap => absurd gap.2 (by dsimp only; omega), ih (by omega),
          Nat.min_eq_left (by omega), Nat.min_eq_left (by omega)]
        rfl
  · have many : 3 ≤ count := by omega
    rw [List.replicate_succ, List.cons_append, collapseFrom_cons, blankLines_feeds _ starts,
      if_pos ⟨rfl, many⟩]
    have skipped := collapseFrom_append (List.replicate count '\n') t
    rw [List.length_replicate] at skipped
    rw [skipped, Nat.min_eq_right (by omega)]
    rfl

theorem length_collapseFrom_le (skip : Nat) (s : Text) :
    (collapseFrom skip s).length ≤ s.length - skip := by
  induction s generalizing skip with
  | nil => exact Nat.zero_le _
  | cons c rest ih =>
      rw [List.length_cons]
      cases skip with
      | succ skip =>
          rw [collapseFrom, Nat.add_sub_add_right]
          exact ih skip
      | zero =>
          have bounds := blankLines_le 0 rest
          rw [collapseFrom_cons]
          split
          · rename_i gap
            have later := ih (blankLines 0 rest).2
            simp only [List.length_append, List.length_cons, List.length_nil]
            omega
          · have later := ih 0
            rw [List.length_cons]
            omega

theorem noGap_cons_iff :
    NoGap (c :: s) ↔ (c = '\n' → (blankLines 0 s).1 < 3) ∧ NoGap s := by
  constructor
  · intro noGap
    refine ⟨?_, fun before after split => noGap (c :: before) after (by rw [split]; rfl)⟩
    rintro rfl
    exact noGap [] s rfl
  · rintro ⟨first, later⟩ before after split
    cases before with
    | nil =>
        obtain ⟨rfl, rfl⟩ := List.cons.inj split
        exact first rfl
    | cons d more =>
        obtain ⟨rfl, further⟩ := List.cons.inj split
        exact later more after further

theorem noGap_of_length_le (same : s.length ≤ (collapseFrom 0 s).length) : NoGap s := by
  induction s with
  | nil =>
      intro before after split
      cases before <;> cases split
  | cons c rest ih =>
      rw [collapseFrom_cons] at same
      rw [noGap_cons_iff]
      split at same
      · rename_i gap
        have shorter := length_collapseFrom_le (blankLines 0 rest).2 rest
        have bounds := blankLines_le 0 rest
        simp only [List.length_append, List.length_cons, List.length_nil] at same
        omega
      · rename_i noRun
        exact ⟨fun feed => Nat.lt_of_not_le fun gap => noRun ⟨feed, gap⟩,
          ih (Nat.le_of_succ_le_succ same)⟩

theorem collapseFrom_of_noGap (noGap : NoGap s) : collapseFrom 0 s = s := by
  induction s with
  | nil => rfl
  | cons c rest ih =>
      obtain ⟨first, later⟩ := noGap_cons_iff.1 noGap
      rw [collapseFrom_cons, if_neg fun gap => Nat.not_lt_of_le gap.2 (first gap.1), ih later]

theorem noGap_iff : NoGap s ↔ s.length ≤ (collapseFrom 0 s).length :=
  ⟨fun noGap => Nat.le_of_eq (congrArg List.length (collapseFrom_of_noGap noGap).symm),
    noGap_of_length_le⟩

instance (s : Text) : Decidable (NoGap s) := decidable_of_iff _ noGap_iff.symm

end Collapse

section Rows

variable {rows : List (Option Text)} {s : Text}

/-- What follows a text in a script with these rows behind it. -/
def behind (rows : List (Option Text)) : Text := rows.flatMap fun row => '\n' :: row.getD []

theorem ofRows_cons (row : Option Text) (rows : List (Option Text)) :
    ofRows (row :: rows) = row.getD [] ++ behind rows := by
  induction rows generalizing row with
  | nil => exact (List.append_nil _).symm
  | cons next rest ih =>
      have step := Text.joinLines_cons_cons (row.getD []) (next.getD []) (rest.map (·.getD []))
      exact step.trans (congrArg (row.getD [] ++ '\n' :: ·) (ih next))

/-- The rows with the runs of blank lines in their texts shortened. -/
def collapseRows (rows : List (Option Text)) : List (Option Text) :=
  rows.map (Option.map (collapseFrom 0))

def AllTrimmed (rows : List (Option Text)) : Prop := ∀ s, some s ∈ rows → Trimmed s

theorem forall_some_mem_iff {P : Text → Prop} :
    (∀ s, some s ∈ rows → P s) ↔ ∀ row ∈ rows, ∀ s ∈ row, P s :=
  ⟨fun all _ member s found => all s (Option.mem_def.1 found ▸ member),
    fun all s member => all (some s) member s rfl⟩

theorem AllTrimmed.tail {row : Option Text} (trimmed : AllTrimmed (row :: rows)) :
    AllTrimmed rows := fun s member => trimmed s (List.mem_cons_of_mem _ member)

theorem AllTrimmed.collapse (trimmed : AllTrimmed rows) : AllTrimmed (collapseRows rows) := by
  intro s member
  obtain ⟨row, among, same⟩ := List.mem_map.1 member
  obtain ⟨t, rfl, rfl⟩ := Option.map_eq_some_iff.1 same
  exact (trimmed t among).collapse

theorem Trimmed.head (trimmed : Trimmed s) (t : Text) :
    ∀ c ∈ (s ++ t).head?, isBlank c = false := by
  obtain ⟨c, rest, rfl, visible⟩ := trimmed.starts
  rintro _ ⟨⟩
  exact visible

theorem Trimmed.collapseFrom_append (trimmed : Trimmed s) (t : Text) :
    collapseFrom 0 (s ++ t) = collapseFrom 0 s ++ collapseFrom 0 t := by
  obtain ⟨front, c, rfl, visible⟩ := trimmed.ends
  rw [List.append_assoc]
  exact collapseFrom_append_visible visible (Nat.zero_le _) t

theorem exists_collapse_feeds (count : Nat) :
    ∃ left, collapseFrom 0 (List.replicate count '\n') = List.replicate left '\n' := by
  cases count with
  | zero => exact ⟨0, rfl⟩
  | succ count =>
      have collapsed := collapseFrom_feeds count (t := []) fun _ found => by cases found
      rw [List.append_nil] at collapsed
      exact ⟨_, collapsed.trans (List.append_nil _)⟩

theorem replicate_append_behind (blank : Nat) (row : Option Text) (rows : List (Option Text)) :
    List.replicate blank '\n' ++ behind (row :: rows) =
      List.replicate (blank + 1) '\n' ++ (row.getD [] ++ behind rows) := by
  rw [List.replicate_succ', List.append_assoc]
  rfl

/-- Between the texts runs of blank lines are shortened to two blank lines. -/
theorem exists_collapse_behind (trimmed : AllTrimmed rows) (blank : Nat) :
    ∃ last, collapseFrom 0 (List.replicate blank '\n' ++ behind rows) =
      layOutFrom (some blank) (collapseRows rows) ++ List.replicate last '\n' := by
  induction rows generalizing blank with
  | nil =>
      obtain ⟨last, found⟩ := exists_collapse_feeds blank
      exact ⟨last, by rw [behind, List.flatMap_nil, List.append_nil, found]; rfl⟩
  | cons row rest ih =>
      rw [replicate_append_behind]
      cases row with
      | none => exact ih trimmed.tail (blank + 1)
      | some s =>
          have trimmedText := trimmed s List.mem_cons_self
          obtain ⟨last, found⟩ := ih trimmed.tail 0
          refine ⟨last, ?_⟩
          rw [Option.getD_some, collapseFrom_feeds blank (trimmedText.head _),
            trimmedText.collapseFrom_append]
          rw [List.replicate_zero, List.nil_append] at found
          rw [found]
          change _ = List.replicate (min blank 2 + 1) '\n' ++ (collapseFrom 0 s ++
            layOutFrom (some 0) (collapseRows rest)) ++ List.replicate last '\n'
          simp only [List.append_assoc]

/-- Blank lines before the first text stay blank lines. -/
theorem exists_collapse_ofRows (trimmed : AllTrimmed rows) (blank : Nat) :
    ∃ first last, collapseFrom 0 (List.replicate blank '\n' ++ ofRows rows) =
      List.replicate first '\n' ++ (layOut (collapseRows rows) ++ List.replicate last '\n') := by
  induction rows generalizing blank with
  | nil =>
      obtain ⟨last, found⟩ := exists_collapse_feeds blank
      exact ⟨0, last, by rw [ofRows, List.map_nil, Text.joinLines_nil, List.append_nil, found]; rfl⟩
  | cons row rest ih =>
      cases row with
      | none =>
          cases rest with
          | nil => exact ih trimmed.tail blank
          | cons next more =>
              obtain ⟨first, last, found⟩ := ih trimmed.tail (blank + 1)
              refine ⟨first, last, Eq.trans ?_ found⟩
              rw [ofRows_cons, ofRows_cons, Option.getD_none, List.nil_append,
                replicate_append_behind]
      | some s =>
          have trimmedText := trimmed s List.mem_cons_self
          obtain ⟨last, found⟩ := exists_collapse_behind trimmed.tail 0
          rw [List.replicate_zero, List.nil_append] at found
          have laidOut : collapseFrom 0 (s ++ behind rest) =
              layOut (collapseRows (some s :: rest)) ++ List.replicate last '\n' := by
            rw [trimmedText.collapseFrom_append, found]
            exact (List.append_assoc _ _ _).symm
          rw [ofRows_cons, Option.getD_some]
          cases blank with
          | zero => exact ⟨0, last, laidOut⟩
          | succ blank =>
              exact ⟨_, last, by rw [collapseFrom_feeds blank (trimmedText.head _), laidOut]⟩

theorem ends_layOutFrom (trimmed : AllTrimmed rows) (state : Option Nat) :
    layOutFrom state rows = [] ∨
      ∃ front c, layOutFrom state rows = front ++ [c] ∧ isBlank c = false := by
  induction rows generalizing state with
  | nil => exact Or.inl (by rw [layOutFrom])
  | cons row rest ih =>
      cases row with
      | none =>
          cases state with
          | none => exact ih trimmed.tail none
          | some blank => exact ih trimmed.tail (some (blank + 1))
      | some s =>
          have ends : ∃ front c, s ++ layOutFrom (some 0) rest = front ++ [c] ∧
              isBlank c = false := by
            rcases ih trimmed.tail (some 0) with empty | ⟨front, c, final, visible⟩
            · rw [empty, List.append_nil]
              exact (trimmed s List.mem_cons_self).ends
            · exact ⟨s ++ front, c, by rw [final, List.append_assoc], visible⟩
          cases state with
          | none => exact Or.inr ends
          | some blank =>
              obtain ⟨front, c, final, visible⟩ := ends
              refine Or.inr ⟨List.replicate (min blank 2 + 1) '\n' ++ front, c, ?_, visible⟩
              rw [layOutFrom, final, List.append_assoc]

theorem starts_layOut (trimmed : AllTrimmed rows) :
    ∀ c ∈ (layOut rows).head?, isBlank c = false := by
  unfold layOut
  induction rows with
  | nil => exact fun _ found => by cases found
  | cons row rest ih =>
      cases row with
      | none => exact ih trimmed.tail
      | some s => exact (trimmed s List.mem_cons_self).head _

theorem trim_layOut (trimmed : AllTrimmed rows) : trim (layOut rows) = layOut rows := by
  have starts := starts_layOut trimmed
  rcases ends_layOutFrom trimmed none with empty | ⟨front, d, final, visible⟩
  · rw [layOut, empty]
    rfl
  · change layOut rows = front ++ [d] at final
    cases split : layOut rows with
    | nil => rfl
    | cons c rest =>
        rw [split] at starts final
        refine Text.trim_of_visible rfl ?_ (starts c rfl) visible
        rw [final, List.getLast?_concat]

theorem allBlank_feeds (count : Nat) : AllBlank (List.replicate count '\n') := by
  intro c member
  rw [List.eq_of_mem_replicate member]
  decide

theorem trim_collapse_ofRows (trimmed : AllTrimmed rows) :
    trim (collapseFrom 0 (ofRows rows)) = layOut (collapseRows rows) := by
  obtain ⟨first, last, found⟩ := exists_collapse_ofRows trimmed 0
  rw [List.replicate_zero, List.nil_append] at found
  rw [found, Text.trim_blanks_append (allBlank_feeds first),
    Text.trim_append_blanks (allBlank_feeds last), trim_layOut trimmed.collapse]

end Rows

end MigrationSquash.Script
