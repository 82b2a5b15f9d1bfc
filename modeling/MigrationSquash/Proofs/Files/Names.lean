import MigrationSquash.Files.Tree
import MigrationSquash.Proofs.Region.Signature

/-!
# Names of entries

The path of an entry of a directory describes the names of the directory and then that of the
entry, however many slashes the directory is written with.
-/

set_option autoImplicit false

namespace MigrationSquash

namespace Path

theorem segments_ne_nil (path : Path) : segments path ≠ [] := by
  fun_cases segments path <;> exact List.cons_ne_nil _ _

theorem segments_cons {c : Char} (noSlash : c ≠ '/') (rest : Text) :
    ∃ segment more, segments rest = segment :: more ∧
      segments (c :: rest) = (c :: segment) :: more := by
  cases split : segments rest with
  | nil => exact absurd split (segments_ne_nil rest)
  | cons segment more =>
      refine ⟨segment, more, rfl, ?_⟩
      rw [segments, split]
      exact noSlash

theorem segments_append_slash (path rest : Text) :
    segments (path ++ '/' :: rest) = segments path ++ segments rest := by
  induction path with
  | nil => rfl
  | cons c tail ih =>
      by_cases slash : c = '/'
      · subst slash
        rw [List.cons_append, segments, ih]
        rfl
      · obtain ⟨segment, more, split, cut⟩ := segments_cons slash (tail ++ '/' :: rest)
        obtain ⟨first, others, splitTail, cutTail⟩ := segments_cons slash tail
        rw [split, splitTail, List.cons_append] at ih
        obtain ⟨rfl, rfl⟩ := List.cons.inj ih
        rw [List.cons_append, cut, cutTail]
        rfl

theorem segments_of_noSlash {name : Text} (noSlash : '/' ∉ name) : segments name = [name] := by
  induction name with
  | nil => rfl
  | cons c rest ih =>
      have notFirst : c ≠ '/' := fun same => noSlash (by simp [same])
      obtain ⟨segment, more, split, cut⟩ := segments_cons notFirst rest
      rw [ih fun member => noSlash (List.mem_cons_of_mem c member)] at split
      obtain ⟨rfl, rfl⟩ := List.cons.inj split
      exact cut

/-- The names on the way that a path describes, whether or not it ends with a slash. -/
def names (path : Path) : List Text := (segments path).filter (· ≠ [])

/-- A name that an entry of a directory can have. -/
structure IsEntry (name : Text) : Prop where
  nonempty : name ≠ []
  noSlash : '/' ∉ name
  notHere : name ≠ ['.']
  notAbove : name ≠ ['.', '.']

theorem endsWith_slash_iff {path : Path} :
    Text.endsWith ['/'] path = true ↔ ∃ start, path = start ++ ['/'] := by
  rw [Text.endsWith, Option.isSome_iff_exists]
  exact exists_congr fun start => Text.before?_eq_some_iff

theorem isAbsolute_iff {path : Path} : isAbsolute path = true ↔ ∃ rest, path = '/' :: rest :=
  Text.startsWith_iff

variable {directory : Path} {name : Text}

theorem IsEntry.not_isAbsolute (entry : IsEntry name) : isAbsolute name = false := by
  cases absolute : isAbsolute name with
  | false => rfl
  | true =>
      obtain ⟨rest, rfl⟩ := isAbsolute_iff.1 absolute
      exact absurd List.mem_cons_self entry.noSlash

/-- The three ways in which an entry is written behind its directory. -/
theorem join_eq (entry : IsEntry name) (directory : Path) :
    directory = [] ∧ join directory name = name ∨
      (∃ start, directory = start ++ ['/'] ∧ join directory name = start ++ '/' :: name) ∨
      directory ≠ [] ∧ Text.endsWith ['/'] directory = false ∧
        join directory name = directory ++ '/' :: name := by
  by_cases empty : directory = []
  · left
    refine ⟨empty, ?_⟩
    simp [join, empty]
  · have shape : join directory name =
        if Text.endsWith ['/'] directory then directory ++ name else directory ++ '/' :: name := by
      rw [join, entry.not_isAbsolute]
      simp [empty]
    cases slash : Text.endsWith ['/'] directory with
    | true =>
        obtain ⟨start, rfl⟩ := endsWith_slash_iff.1 slash
        refine Or.inr (Or.inl ⟨start, rfl, ?_⟩)
        rw [shape, slash]
        simp
    | false =>
        refine Or.inr (Or.inr ⟨empty, rfl, ?_⟩)
        rw [shape, slash]
        rfl

theorem names_join (entry : IsEntry name) : names (join directory name) = names directory ++ [name] := by
  have own : (segments name).filter (· ≠ []) = [name] := by
    rw [segments_of_noSlash entry.noSlash]
    simp [entry.nonempty]
  rcases join_eq entry directory with
    ⟨rfl, joined⟩ | ⟨start, rfl, joined⟩ | ⟨-, -, joined⟩
  · rw [names, joined, own]
    rfl
  · rw [names, names, joined, segments_append_slash, segments_append_slash, List.filter_append,
      List.filter_append, own]
    simp [segments]
  · rw [names, names, joined, segments_append_slash, List.filter_append, own]

theorem endsWith_slash_join (entry : IsEntry name) :
    Text.endsWith ['/'] (join directory name) = false := by
  cases slash : Text.endsWith ['/'] (join directory name) with
  | false => rfl
  | true =>
      obtain ⟨start, ends⟩ := endsWith_slash_iff.1 slash
      have suffix : ∃ front, join directory name = front ++ name := by
        rcases join_eq entry directory with
          ⟨-, joined⟩ | ⟨front, -, joined⟩ | ⟨-, -, joined⟩
        · exact ⟨[], joined⟩
        · exact ⟨front ++ ['/'], by simp [joined]⟩
        · exact ⟨directory ++ ['/'], by simp [joined]⟩
      obtain ⟨front, whole⟩ := suffix
      rw [whole] at ends
      have last : name.getLast? = some '/' := by
        have lasts := congrArg List.getLast? ends
        rw [List.getLast?_append_of_ne_nil _ entry.nonempty] at lasts
        simpa using lasts
      exact absurd (List.mem_of_getLast? last) entry.noSlash

theorem isAbsolute_join (entry : IsEntry name) :
    isAbsolute (join directory name) = isAbsolute directory := by
  rcases join_eq entry directory with
    ⟨rfl, joined⟩ | ⟨start, rfl, joined⟩ | ⟨nonempty, -, joined⟩
  · rw [joined, entry.not_isAbsolute]
    rfl
  · rw [joined, Bool.eq_iff_iff, isAbsolute_iff, isAbsolute_iff]
    cases start <;> simp
  · rw [joined, Bool.eq_iff_iff, isAbsolute_iff, isAbsolute_iff]
    cases directory with
    | nil => exact absurd rfl nonempty
    | cons c rest => simp

theorem segments_join (entry : IsEntry name) (directory : Path) :
    ∃ front, segments (join directory name) = front ++ [name] := by
  have own := segments_of_noSlash entry.noSlash
  rcases join_eq entry directory with
    ⟨-, joined⟩ | ⟨start, -, joined⟩ | ⟨-, -, joined⟩
  · exact ⟨[], by rw [joined, own, List.nil_append]⟩
  · exact ⟨segments start, by rw [joined, segments_append_slash, own]⟩
  · exact ⟨segments directory, by rw [joined, segments_append_slash, own]⟩

theorem getLast?_components_join (entry : IsEntry name) :
    (components (join directory name)).getLast? = some (.name name) := by
  obtain ⟨front, split⟩ := segments_join entry directory
  have own : component? name = some (.name name) := by
    simp [component?, entry.nonempty, entry.notHere, entry.notAbove]
  simp only [components, split, List.filterMap_append, List.filterMap_cons, own,
    List.filterMap_nil, ← List.append_assoc, List.getLast?_concat]

/-- Paths of entries of one directory are the same only if the entries are. -/
theorem same_join_iff {other : Text} (entry : IsEntry name) (otherEntry : IsEntry other) :
    same (join directory name) (join directory other) = true ↔ name = other := by
  constructor
  · intro alike
    have lasts := congrArg List.getLast? (eq_of_beq alike)
    rw [getLast?_components_join entry, getLast?_components_join otherEntry] at lasts
    exact Component.name.inj (Option.some.inj lasts)
  · rintro rfl
    exact beq_self_eq_true _

theorem join_inj {other : Text} (entry : IsEntry name) (otherEntry : IsEntry other) :
    join directory name = join directory other ↔ name = other := by
  constructor
  · intro alike
    apply (same_join_iff entry otherEntry).1
    rw [alike]
    exact beq_self_eq_true (components (join directory other))
  · exact congrArg _

end Path

namespace FileTree

theorem namesOf_join {directory : Path} {name : Text} (entry : Path.IsEntry name) :
    namesOf (Path.join directory name) = Path.names directory ++ [name] := by
  rw [namesOf, Path.endsWith_slash_join entry, Bool.and_false]
  exact Path.names_join entry

/-- A slash at the end of a path adds a dot to its names. -/
theorem namesOf_eq (path : Path) :
    namesOf path = Path.names path ∨ namesOf path = Path.names path ++ [['.']] := by
  unfold namesOf
  dsimp only
  split
  · exact Or.inr rfl
  · exact Or.inl rfl

end FileTree

end MigrationSquash
