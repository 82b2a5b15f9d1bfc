import MigrationSquash.Migration.Directory
import MigrationSquash.Proofs.Files.Names

/-!
# Where paths lead

A path through a directory leads where its rest leads from there, and it leads there as long as
the directories and links on the way stay.  So an entry that is no link is found at its name in
the directory, in every tree that keeps the directories and links of the first one.
-/

set_option autoImplicit false

namespace MigrationSquash.FileTree

variable {tree after : FileTree} {start place : Place} {names : List Text}

/-- What a name does to a walk, whatever names follow it. -/
inductive Stride where
  | on (place : Place)
  | ends (place : Place) (error : FileError)
  | failed (error : FileError)
  | link (directory : Place) (target : Path)

/-- Where a name leads from a directory. -/
def stride (tree : FileTree) (start : Place) (name : Text) : Stride :=
  if name = ['.'] then .on start
  else if name = ['.', '.'] then .on start.dropLast
  else if nameLimit < Text.width name then .failed .nameTooLong
  else
    match tree.node? (start ++ [name]) with
    | none => .ends (start ++ [name]) .notFound
    | some .directory => .on (start ++ [name])
    | some (.file _ _) => .ends (start ++ [name]) .notDirectory
    | some (.link target) => .link start target

/-- How the walk goes on. -/
def Stride.walk (tree : FileTree) : Stride → List Text → Walk
  | .on place, rest => tree.walk place rest
  | .ends place error, rest => if rest.isEmpty then .place place else .failed error
  | .failed error, _ => .failed error
  | .link directory target, rest => .link directory target rest

theorem walk_cons (tree : FileTree) (start : Place) (name : Text) (rest : List Text) :
    tree.walk start (name :: rest) = (tree.stride start name).walk tree rest := by
  rw [walk, stride]
  by_cases here : name = ['.']
  · rw [if_pos here, if_pos here]
    rfl
  rw [if_neg here, if_neg here]
  by_cases above : name = ['.', '.']
  · rw [if_pos above, if_pos above]
    rfl
  rw [if_neg above, if_neg above]
  by_cases long : nameLimit < Text.width name
  · rw [if_pos long, if_pos long]
    rfl
  rw [if_neg long, if_neg long]
  dsimp only
  cases tree.node? (start ++ [name]) with
  | none => rfl
  | some node => cases node <;> rfl

theorem not_directory_of_ends {name : Text} {error : FileError}
    (ends : tree.stride start name = .ends place error) :
    tree.node? place ≠ some .directory := by
  unfold stride at ends
  split at ends
  · cases ends
  · split at ends
    · cases ends
    · split at ends
      · cases ends
      · split at ends
        · next missing =>
            cases ends
            rw [missing]
            exact fun same => by cases same
        · cases ends
        · next found =>
            cases ends
            rw [found]
            exact fun same => by cases same
        · cases ends

theorem walk_cons_of_on {name : Text} {rest : List Text} (strides : tree.stride start name = .on place) :
    tree.walk start (name :: rest) = tree.walk place rest := by
  rw [walk_cons, strides]
  rfl

theorem walk_cons_eq_place_iff {name : Text} {rest : List Text} :
    tree.walk start (name :: rest) = .place place ↔
      (∃ next, tree.stride start name = .on next ∧ tree.walk next rest = .place place) ∨
        ∃ error, tree.stride start name = .ends place error ∧ rest = [] := by
  rw [walk_cons]
  cases tree.stride start name with
  | on next => simp [Stride.walk]
  | ends here error => cases rest <;> simp [Stride.walk]
  | failed error => simp [Stride.walk]
  | link base target => simp [Stride.walk]

theorem walk_cons_eq_link_iff {name : Text} {rest left : List Text} {base : Place} {target : Path} :
    tree.walk start (name :: rest) = .link base target left ↔
      (∃ next, tree.stride start name = .on next ∧ tree.walk next rest = .link base target left) ∨
        tree.stride start name = .link base target ∧ rest = left := by
  rw [walk_cons]
  cases tree.stride start name with
  | on next => simp [Stride.walk]
  | ends here error => cases rest <;> simp [Stride.walk]
  | failed error => simp [Stride.walk]
  | link directory other => simp [Stride.walk, and_assoc]

theorem walk_append (walked : tree.walk start (names ++ [['.']]) = .place place)
    (more : List Text) : tree.walk start (names ++ more) = tree.walk place more := by
  induction names generalizing start with
  | nil =>
      obtain rfl := Walk.place.inj walked
      rfl
  | cons name rest ih =>
      rcases walk_cons_eq_place_iff.1 walked with ⟨next, strides, walked⟩ | ⟨error, -, empty⟩
      · rw [List.cons_append, walk_cons_of_on strides]
        exact ih walked
      · exact absurd empty (List.append_ne_nil_of_right_ne_nil rest (List.cons_ne_nil _ _))

/-- A walk that meets a link meets the same one with more names behind it. -/
theorem walk_append_of_isLink {base : Place} {target : Path} {left : List Text}
    (walked : tree.walk start names = .link base target left) (more : List Text) :
    tree.walk start (names ++ more) = .link base target (left ++ more) := by
  induction names generalizing start with
  | nil => cases walked
  | cons name rest ih =>
      rcases walk_cons_eq_link_iff.1 walked with ⟨next, strides, walked⟩ | ⟨strides, rfl⟩
      · exact walk_cons_eq_link_iff.2 (Or.inl ⟨next, strides, ih walked⟩)
      · exact walk_cons_eq_link_iff.2 (Or.inr ⟨strides, rfl⟩)

/-- A walk into a directory that meets a link meets the same one whatever is behind. -/
theorem walk_append_of_link {base : Place} {target : Path} {left : List Text}
    (walked : tree.walk start (names ++ [['.']]) = .link base target left) :
    ∃ rest, left = rest ++ [['.']] ∧ ∀ more,
      tree.walk start (names ++ more) = .link base target (rest ++ more) := by
  induction names generalizing start with
  | nil => cases walked
  | cons name rest ih =>
      rcases walk_cons_eq_link_iff.1 walked with ⟨next, strides, walked⟩ | ⟨strides, rfl⟩
      · obtain ⟨left, split, same⟩ := ih walked
        exact ⟨left, split,
          fun more => walk_cons_eq_link_iff.2 (Or.inl ⟨next, strides, same more⟩)⟩
      · exact ⟨rest, rfl, fun more => walk_cons_eq_link_iff.2 (Or.inr ⟨strides, rfl⟩)⟩

/-- A walk that ends in a directory could go on. -/
theorem walk_append_dot (walked : tree.walk start names = .place place)
    (isDirectory : tree.node? place = some .directory) :
    tree.walk start (names ++ [['.']]) = .place place := by
  induction names generalizing start with
  | nil =>
      obtain rfl := Walk.place.inj walked
      rfl
  | cons name rest ih =>
      rcases walk_cons_eq_place_iff.1 walked with ⟨next, strides, walked⟩ | ⟨error, strides, -⟩
      · rw [List.cons_append, walk_cons_of_on strides]
        exact ih walked
      · exact absurd isDirectory (not_directory_of_ends strides)

/-- The ways that names describe with so many links to follow: they are walked to the place, or up
to a link from which a way leads on. -/
inductive Resolves (tree : FileTree) (place : Place) : Nat → Place → List Text → Prop where
  | arrives {links : Nat} {start : Place} {names : List Text}
      (walked : tree.walk start names = .place place) : Resolves tree place links start names
  | follows {links : Nat} {start base : Place} {names left : List Text} {target : Path}
      (walked : tree.walk start names = .link base target left) (nonempty : target ≠ [])
      (onward : Resolves tree place links (startOf base target) (namesOf target ++ left)) :
      Resolves tree place (links + 1) start names

theorem resolveFrom_of_link {links : Nat} {base : Place} {target : Path} {left : List Text}
    (walked : tree.walk start names = .link base target left) (nonempty : target ≠ []) :
    tree.resolveFrom (links + 1) start names =
      tree.resolveFrom links (startOf base target) (namesOf target ++ left) := by
  rw [resolveFrom, walked]
  dsimp only
  rw [if_neg nonempty]

theorem resolveFrom_eq_ok_iff {links : Nat} :
    tree.resolveFrom links start names = .ok place ↔ tree.Resolves place links start names := by
  constructor
  · intro leads
    fun_induction resolveFrom tree links start names with
    | case1 links start names found walked =>
        obtain rfl := Except.ok.inj leads
        exact .arrives walked
    | case2 | case3 | case4 => cases leads
    | case5 start names base target left walked links nonempty ih =>
        exact .follows walked nonempty (ih leads)
  · intro way
    induction way with
    | arrives walked => rw [resolveFrom, walked]
    | follows walked nonempty _ ih => rw [resolveFrom_of_link walked nonempty, ih]

/-- A path through a directory leads where its rest leads from there. -/
theorem resolveFrom_append {links : Nat}
    (opens : tree.resolveFrom links start (names ++ [['.']]) = .ok place) :
    ∃ left, ∀ more,
      tree.resolveFrom links start (names ++ more) = tree.resolveFrom left place more := by
  rw [resolveFrom_eq_ok_iff] at opens
  generalize whole : names ++ [['.']] = all at opens
  induction opens generalizing names with
  | @arrives links start all walked =>
      subst whole
      refine ⟨links, fun more => ?_⟩
      rw [resolveFrom, resolveFrom, walk_append walked]
  | follows walked nonempty _ ih =>
      subst whole
      obtain ⟨rest, rfl, same⟩ := walk_append_of_link walked
      obtain ⟨left, later⟩ := ih (List.append_assoc _ rest _)
      refine ⟨left, fun more => ?_⟩
      rw [resolveFrom_of_link (same more) nonempty, ← List.append_assoc]
      exact later more

theorem resolveFrom_append_dot {links : Nat} (leads : tree.resolveFrom links start names = .ok place)
    (isDirectory : tree.node? place = some .directory) :
    tree.resolveFrom links start (names ++ [['.']]) = .ok place := by
  rw [resolveFrom_eq_ok_iff] at leads ⊢
  induction leads with
  | arrives walked => exact .arrives (walk_append_dot walked isDirectory)
  | follows walked nonempty _ ih =>
      rw [List.append_assoc] at ih
      exact .follows (walk_append_of_isLink walked _) nonempty ih

/-- No directory is reached through a link when so many further links may be followed. -/
def Blocks (tree : FileTree) (links : Nat) (base : Place) (target : Path) : Prop :=
  ∀ rest place,
    tree.resolveFrom links (startOf base target) (namesOf target ++ (rest ++ [['.']])) ≠ .ok place

/-- Every directory of the first tree is still there in the second one, and so is every link
through which a directory can be reached within the limit. -/
structure Keeps (limit : Nat) (tree after : FileTree) : Prop where
  current : after.current = tree.current
  directories : ∀ place, tree.node? place = some .directory → after.node? place = some .directory
  links : ∀ place name target, tree.node? (place ++ [name]) = some (.link target) →
    after.node? (place ++ [name]) = some (.link target) ∨
      ∀ links < limit, tree.Blocks links place target

namespace Keeps

variable {limit : Nat} (keeps : tree.Keeps limit after)
include keeps

/-- A name still leads to the directory or the link that it led to, unless the link leads to no
directory. -/
theorem stride (start : Place) (name : Text) :
    (∃ place, tree.stride start name = .on place ∧ after.stride start name = .on place) ∨
      (∃ base target, tree.stride start name = .link base target ∧
        (after.stride start name = .link base target ∨
          ∀ links < limit, tree.Blocks links base target)) ∨
      (∃ place error, tree.stride start name = .ends place error) ∨
      ∃ error, tree.stride start name = .failed error := by
  unfold FileTree.stride
  split
  · exact Or.inl ⟨_, rfl, rfl⟩
  · split
    · exact Or.inl ⟨_, rfl, rfl⟩
    · split
      · exact Or.inr (Or.inr (Or.inr ⟨_, rfl⟩))
      · cases found : tree.node? (start ++ [name]) with
        | none => exact Or.inr (Or.inr (Or.inl ⟨_, _, rfl⟩))
        | some node =>
            cases node with
            | directory =>
                rw [keeps.directories _ found]
                exact Or.inl ⟨_, rfl, rfl⟩
            | file content executable => exact Or.inr (Or.inr (Or.inl ⟨_, _, rfl⟩))
            | link target =>
                refine Or.inr (Or.inl ⟨start, target, rfl, ?_⟩)
                rcases keeps.links _ _ _ found with same | blocked
                · left
                  rw [same]
                · exact Or.inr blocked

/-- A walk through directories ends where it ended, or at the same link. -/
theorem walk (names : List Text) (start : Place) :
    (∀ place, tree.walk start (names ++ [['.']]) = .place place →
      after.walk start (names ++ [['.']]) = .place place) ∧
    ∀ base target left, tree.walk start (names ++ [['.']]) = .link base target left →
      after.walk start (names ++ [['.']]) = .link base target left ∨
        ∀ links < limit, tree.Blocks links base target := by
  induction names generalizing start with
  | nil => exact ⟨fun _ walked => walked, fun _ _ _ walked => by cases walked⟩
  | cons name rest ih =>
      rw [List.cons_append, walk_cons, walk_cons]
      rcases keeps.stride start name with ⟨next, old, new⟩ | ⟨base, target, old, new | blocked⟩ |
        ⟨place, error, old⟩ | ⟨error, old⟩
      · rw [old, new]
        exact ih next
      · rw [old, new]
        exact ⟨fun _ walked => walked, fun _ _ _ walked => Or.inl walked⟩
      · rw [old]
        refine ⟨fun _ walked => (by cases walked), fun _ _ _ walked => Or.inr ?_⟩
        obtain ⟨rfl, rfl, -⟩ := Walk.link.inj walked
        exact blocked
      · rw [old]
        simp [Stride.walk]
      · rw [old]
        exact ⟨fun _ walked => (by cases walked), fun _ _ _ walked => (by cases walked)⟩

theorem resolveFrom {links : Nat} (within : links ≤ limit) {start place : Place}
    {names : List Text}
    (leads : tree.resolveFrom links start (names ++ [['.']]) = .ok place) :
    after.resolveFrom links start (names ++ [['.']]) = .ok place := by
  rw [resolveFrom_eq_ok_iff] at leads ⊢
  generalize whole : names ++ [['.']] = all at leads ⊢
  induction leads generalizing names with
  | arrives walked =>
      subst whole
      exact .arrives ((keeps.walk names _).1 _ walked)
  | follows walked nonempty onward ih =>
      subst whole
      obtain ⟨rest, rfl, -⟩ := walk_append_of_link walked
      rcases (keeps.walk names _).2 _ _ _ walked with same | blocked
      · exact .follows same nonempty (ih (Nat.le_of_succ_le within) (List.append_assoc _ rest _))
      · exact absurd (resolveFrom_eq_ok_iff.2 onward) (blocked _ within rest place)

end Keeps

end MigrationSquash.FileTree
