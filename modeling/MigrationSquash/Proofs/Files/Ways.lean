import MigrationSquash.Proofs.Files.Resolve

/-!
# Ways to a directory

A path through a directory leads to an entry of it only if the path of the directory leads to the
directory.  A link behind which a file is found is on no way to a directory, so it can be taken
away or replaced, and the way stays the same.
-/

set_option autoImplicit false

namespace MigrationSquash.FileTree

open MigrationSquash.Path (IsEntry)

variable {tree after : FileTree} {directory : Path} {start place : Place} {name : Text}
  {names : List Text}

/-- Where the path of a directory leads. -/
def Leads (tree : FileTree) (directory : Path) (place : Place) : Prop :=
  tree.resolveFrom linkLimit (startOf tree.current directory)
    (Path.names directory ++ [['.']]) = .ok place

namespace Leads

theorem unique {other : Place} (first : tree.Leads directory place)
    (second : tree.Leads directory other) : place = other :=
  Except.ok.inj (Eq.trans (Eq.symm first) second)

theorem kept (leads : tree.Leads directory place) (keeps : tree.Keeps linkLimit after) :
    after.Leads directory place := by
  rw [Leads, keeps.current]
  exact keeps.resolveFrom (Nat.le_refl _) leads

end Leads

/-! ## Entries -/

theorem startOf_join (entry : IsEntry name) (base : Place) (directory : Path) :
    startOf base (Path.join directory name) = startOf base directory := by
  rw [startOf, startOf, Path.isAbsolute_join entry]

/-- Whatever follows a way, the way itself is walked. -/
theorem walk_of_concat (names : List Text) (start : Place) :
    (∀ place, tree.walk start (names ++ [name]) = .place place →
      ∃ on, tree.walk start (names ++ [['.']]) = .place on) ∧
    ∀ base target left, tree.walk start (names ++ [name]) = .link base target left →
      (∃ on, tree.walk start (names ++ [['.']]) = .place on) ∨
        ∃ rest, left = rest ++ [name] ∧
          tree.walk start (names ++ [['.']]) = .link base target (rest ++ [['.']]) := by
  induction names generalizing start with
  | nil => exact ⟨fun _ _ => ⟨start, rfl⟩, fun _ _ _ _ => Or.inl ⟨start, rfl⟩⟩
  | cons first rest ih =>
      rw [List.cons_append, List.cons_append, walk_cons, walk_cons]
      cases tree.stride start first with
      | on next => exact ih next
      | ends here error => simp [Stride.walk]
      | failed error => exact ⟨fun _ walked => (by cases walked), fun _ _ _ walked => (by cases walked)⟩
      | link base target =>
          refine ⟨fun _ walked => (by cases walked), fun _ _ _ walked => Or.inr ⟨rest, ?_⟩⟩
          obtain ⟨rfl, rfl, rfl⟩ := Walk.link.inj walked
          exact ⟨rfl, rfl⟩

theorem exists_resolveFrom_of_concat {links : Nat}
    (leads : tree.resolveFrom links start (names ++ [name]) = .ok place) :
    ∃ on, tree.resolveFrom links start (names ++ [['.']]) = .ok on := by
  simp only [resolveFrom_eq_ok_iff] at leads ⊢
  generalize whole : names ++ [name] = all at leads
  induction leads generalizing names with
  | arrives walked =>
      subst whole
      obtain ⟨on, opens⟩ := (walk_of_concat names _).1 _ walked
      exact ⟨on, .arrives opens⟩
  | follows walked nonempty _ ih =>
      subst whole
      rcases (walk_of_concat names _).2 _ _ _ walked with ⟨on, opens⟩ | ⟨rest, rfl, opens⟩
      · exact ⟨on, .arrives opens⟩
      · obtain ⟨on, later⟩ := ih (List.append_assoc _ rest _)
        rw [List.append_assoc] at later
        exact ⟨on, .follows opens nonempty later⟩

theorem resolveFrom_of_resolve {path : Path} (resolved : tree.resolve path = .ok place) :
    tree.resolveFrom linkLimit (startOf tree.current path) (namesOf path) = .ok place := by
  cases checked : checkPath path with
  | error error =>
      rw [resolve, checked] at resolved
      cases resolved
  | ok value =>
      rw [resolve, checked] at resolved
      exact resolved

/-- An entry is only found if its directory is. -/
theorem exists_leads_of_resolve (entry : IsEntry name)
    (resolved : tree.resolve (Path.join directory name) = .ok place) :
    ∃ on, tree.Leads directory on := by
  have leads := resolveFrom_of_resolve resolved
  rw [namesOf_join entry, startOf_join entry] at leads
  exact exists_resolveFrom_of_concat leads

/-- The place of an entry, whatever is there. -/
theorem exists_leads_of_entryPlace (entry : IsEntry name) {unnamed : FileError} {found : Place}
    (named : tree.entryPlace unnamed (Path.join directory name) = .ok found) :
    ∃ on, tree.Leads directory on ∧ found = on ++ [name] := by
  have names : (Path.segments (Path.join directory name)).filter (· ≠ []) =
      Path.names directory ++ [name] := Path.names_join entry
  simp only [entryPlace, names, startOf_join entry, List.dropLast_concat, List.getLast?_concat,
    Option.getD_some, entry.notHere, entry.notAbove, Bool.or_self, Bool.false_eq_true,
    if_false, decide_false] at named
  cases checked : checkPath (Path.join directory name) with
  | error error =>
      rw [checked] at named
      cases named
  | ok value =>
      rw [checked] at named
      cases leads : tree.resolveFrom linkLimit (startOf tree.current directory)
          (Path.names directory ++ [['.']]) with
      | error error =>
          rw [leads] at named
          cases named
      | ok on =>
          rw [leads] at named
          change (if nameLimit < Text.width name then Except.error _ else .ok _) = _ at named
          split at named
          · cases named
          · exact ⟨on, leads, (Except.ok.inj named).symm⟩

/-- The path of an entry that is no link leads to the entry. -/
theorem Leads.resolve_join_iff (leads : tree.Leads directory place) (entry : IsEntry name)
    (plain : ∀ target, tree.node? (place ++ [name]) ≠ some (.link target)) {found : Place} :
    tree.resolve (Path.join directory name) = .ok found ↔
      checkPath (Path.join directory name) = .ok () ∧ Text.width name ≤ nameLimit ∧
        found = place ++ [name] := by
  obtain ⟨left, through⟩ := resolveFrom_append leads
  have walked : tree.walk place [name] =
      if nameLimit < Text.width name then .failed .nameTooLong else .place (place ++ [name]) := by
    rw [walk, if_neg entry.notHere, if_neg entry.notAbove]
    split
    · rfl
    · dsimp only
      split
      · rfl
      · rfl
      · rfl
      · next target isLink => exact absurd isLink (plain target)
  have leads : tree.resolveFrom linkLimit (startOf tree.current directory)
      (Path.names directory ++ [name]) =
        if nameLimit < Text.width name then .error .nameTooLong else .ok (place ++ [name]) := by
    rw [through, resolveFrom, walked]
    by_cases long : nameLimit < Text.width name
    · rw [if_pos long, if_pos long]
    · rw [if_neg long, if_neg long]
  have whole : tree.resolve (Path.join directory name) =
      (checkPath (Path.join directory name)).bind fun _ =>
        if nameLimit < Text.width name then .error .nameTooLong else .ok (place ++ [name]) := by
    rw [← leads, ← startOf_join entry, ← namesOf_join entry]
    rfl
  rw [whole]
  cases checkPath (Path.join directory name) with
  | error error => simp [Except.bind]
  | ok value =>
      by_cases long : nameLimit < Text.width name
      · have tooLong : ¬ Text.width name ≤ nameLimit := Nat.not_le.2 long
        simp [Except.bind, long, tooLong]
      · have short : Text.width name ≤ nameLimit := Nat.not_lt.1 long
        simp [Except.bind, long, short, eq_comm]

/-- A path that leads somewhere is not too long, nor is its last name. -/
theorem Leads.short (leads : tree.Leads directory place) (entry : IsEntry name) {found : Place}
    (resolved : tree.resolve (Path.join directory name) = .ok found) :
    checkPath (Path.join directory name) = .ok () ∧ Text.width name ≤ nameLimit := by
  constructor
  · cases checked : checkPath (Path.join directory name) with
    | error error =>
        rw [resolve, checked] at resolved
        cases resolved
    | ok value => rfl
  · by_contra long
    have walked : tree.walk place [name] = .failed .nameTooLong := by
      rw [walk, if_neg entry.notHere, if_neg entry.notAbove, if_pos (Nat.not_le.1 long)]
    have whole := resolveFrom_of_resolve resolved
    rw [namesOf_join entry, startOf_join entry] at whole
    obtain ⟨left, through⟩ := resolveFrom_append leads
    rw [through, resolveFrom, walked] at whole
    cases whole

/-- Nothing is where a path does not lead, unless a link is there. -/
theorem Leads.node?_of_not_pathExists (leads : tree.Leads directory place) (entry : IsEntry name)
    (plain : ∀ target, tree.node? (place ++ [name]) ≠ some (.link target))
    (checked : checkPath (Path.join directory name) = .ok ())
    (short : Text.width name ≤ nameLimit)
    (absent : tree.pathExists (Path.join directory name) = false) :
    tree.node? (place ++ [name]) = none := by
  have resolved := (leads.resolve_join_iff entry plain).2 ⟨checked, short, rfl⟩
  rw [pathExists, find?, resolved] at absent
  exact Option.not_isSome_iff_eq_none.1 (by rw [absent]; exact Bool.false_ne_true)

/-! ## Links to files -/

/-- A file is at the place. -/
def HoldsFile (tree : FileTree) (place : Place) : Prop :=
  ∃ content executable, tree.node? place = some (.file content executable)

theorem HoldsFile.ne_nil (file : tree.HoldsFile place) : place ≠ [] := by
  rintro rfl
  obtain ⟨content, executable, isFile⟩ := file
  cases isFile

theorem exists_of_isFile {path : Path} (isFile : tree.isFile path = true) :
    ∃ found, tree.resolve path = .ok found ∧ tree.HoldsFile found := by
  unfold FileTree.isFile find? at isFile
  cases resolved : tree.resolve path with
  | error error =>
      rw [resolved] at isFile
      cases isFile
  | ok found =>
      rw [resolved] at isFile
      dsimp only at isFile
      split at isFile
      · next file => exact ⟨found, rfl, _, _, file⟩
      · cases isFile

theorem isFile_of_resolve {path : Path} (resolved : tree.resolve path = .ok place)
    (file : tree.HoldsFile place) : tree.isFile path = true := by
  obtain ⟨content, executable, node⟩ := file
  unfold isFile find?
  rw [resolved]
  dsimp only
  rw [node]

theorem Leads.isFile_join_iff (leads : tree.Leads directory place) (entry : IsEntry name)
    (plain : ∀ target, tree.node? (place ++ [name]) ≠ some (.link target)) :
    tree.isFile (Path.join directory name) = true ↔
      checkPath (Path.join directory name) = .ok () ∧ Text.width name ≤ nameLimit ∧
        tree.HoldsFile (place ++ [name]) := by
  constructor
  · intro isFile
    obtain ⟨found, resolved, file⟩ := exists_of_isFile isFile
    obtain ⟨checked, short, rfl⟩ := (leads.resolve_join_iff entry plain).1 resolved
    exact ⟨checked, short, file⟩
  · rintro ⟨checked, short, file⟩
    exact isFile_of_resolve ((leads.resolve_join_iff entry plain).2 ⟨checked, short, rfl⟩) file

/-- The path of a link leads where the link leads. -/
theorem Leads.exists_resolveFrom_of_link (leads : tree.Leads directory place)
    (entry : IsEntry name) {target : Path}
    (isLink : tree.node? (place ++ [name]) = some (.link target)) {found : Place}
    (resolved : tree.resolve (Path.join directory name) = .ok found) :
    ∃ links, tree.resolveFrom links (startOf place target) (namesOf target) = .ok found := by
  have whole := resolveFrom_of_resolve resolved
  rw [namesOf_join entry, startOf_join entry] at whole
  obtain ⟨left, through⟩ := resolveFrom_append leads
  have walked : tree.walk place [name] = .failed .nameTooLong ∨
      tree.walk place [name] = .link place target [] := by
    rw [walk, if_neg entry.notHere, if_neg entry.notAbove]
    split
    · exact Or.inl rfl
    · right
      dsimp only
      rw [isLink]
  rw [through, resolveFrom] at whole
  rcases walked with failed | linked
  · rw [failed] at whole
    cases whole
  · rw [linked] at whole
    dsimp only at whole
    split at whole
    · cases whole
    · split at whole
      · cases whole
      · rw [List.append_nil] at whole
        exact ⟨_, whole⟩

theorem isDirectory_startOf {base : Place} (isDirectory : tree.node? base = some .directory)
    (path : Path) : tree.node? (startOf base path) = some .directory := by
  rw [startOf]
  split
  · rfl
  · exact isDirectory

theorem base_of_stride {base : Place} {target : Path}
    (linked : tree.stride start name = .link base target) : base = start := by
  unfold stride at linked
  split at linked
  · cases linked
  · split at linked
    · cases linked
    · split at linked
      · cases linked
      · split at linked
        · cases linked
        · cases linked
        · cases linked
        · exact (Stride.link.inj linked).1.symm

section

variable (nested : ∀ outer name, (tree.node? (outer ++ [name])).isSome = true →
  tree.node? outer = some .directory)
include nested

theorem isDirectory_of_stride (isDirectory : tree.node? start = some .directory)
    (on : tree.stride start name = .on place) : tree.node? place = some .directory := by
  unfold stride at on
  split at on
  · obtain rfl := Stride.on.inj on
    exact isDirectory
  · split at on
    · obtain rfl := Stride.on.inj on
      cases start using List.reverseRecOn with
      | nil => rfl
      | append_singleton outer last =>
          rw [List.dropLast_concat]
          exact nested outer last (by rw [isDirectory]; rfl)
    · split at on
      · cases on
      · split at on
        · cases on
        · next found =>
            obtain rfl := Stride.on.inj on
            exact found
        · cases on
        · cases on

/-- Nothing lies behind a file. -/
theorem walk_append_of_file (isDirectory : tree.node? start = some .directory)
    (walked : tree.walk start names = .place place) (noDirectory : tree.node? place ≠ some .directory)
    {more : List Text} (further : more ≠ []) :
    ∃ error, tree.walk start (names ++ more) = .failed error := by
  induction names generalizing start with
  | nil =>
      obtain rfl := Walk.place.inj walked
      exact absurd isDirectory noDirectory
  | cons name rest ih =>
      rcases walk_cons_eq_place_iff.1 walked with ⟨next, strides, walked⟩ | ⟨error, strides, rfl⟩
      · rw [List.cons_append, walk_cons_of_on strides]
        exact ih (isDirectory_of_stride nested isDirectory strides) walked
      · have remains : more.isEmpty = false := by simp [further]
        refine ⟨error, ?_⟩
        rw [List.cons_append, List.nil_append, walk_cons, strides, Stride.walk, remains]
        rfl

theorem isDirectory_of_walk_link {base : Place} {target : Path} {left : List Text}
    (isDirectory : tree.node? start = some .directory)
    (walked : tree.walk start names = .link base target left) :
    tree.node? base = some .directory := by
  induction names generalizing start with
  | nil => cases walked
  | cons name rest ih =>
      rcases walk_cons_eq_link_iff.1 walked with ⟨next, strides, walked⟩ | ⟨strides, -⟩
      · exact ih (isDirectory_of_stride nested isDirectory strides) walked
      · rwa [base_of_stride strides]

/-- No directory is reached through names that lead to a file. -/
theorem resolveFrom_append_ne (isDirectory : tree.node? start = some .directory) {links : Nat}
    (leads : tree.resolveFrom links start names = .ok place)
    (noDirectory : tree.node? place ≠ some .directory) (more : Nat) (rest : List Text)
    (other : Place) : tree.resolveFrom more start (names ++ (rest ++ [['.']])) ≠ .ok other := by
  rw [resolveFrom_eq_ok_iff] at leads
  induction leads generalizing more with
  | arrives walked =>
      obtain ⟨error, failed⟩ := walk_append_of_file nested isDirectory walked noDirectory
        (show rest ++ [['.']] ≠ [] by simp)
      rw [resolveFrom, failed]
      intro same
      cases same
  | follows walked nonempty _ ih =>
      cases more with
      | zero =>
          rw [resolveFrom, walk_append_of_isLink walked]
          intro same
          cases same
      | succ more =>
          rw [resolveFrom_of_link (walk_append_of_isLink walked _) nonempty, ← List.append_assoc]
          exact ih (isDirectory_startOf (isDirectory_of_walk_link nested isDirectory walked) _) more

/-- A link behind which a file is found is on no way to a directory. -/
theorem Leads.blocks (leads : tree.Leads directory place) (entry : IsEntry name) {target : Path}
    (isLink : tree.node? (place ++ [name]) = some (.link target))
    (isFile : tree.isFile (Path.join directory name) = true) (links : Nat) :
    tree.Blocks links place target := by
  obtain ⟨found, resolved, content, executable, file⟩ := exists_of_isFile isFile
  obtain ⟨limit, onward⟩ := leads.exists_resolveFrom_of_link entry isLink resolved
  have holder : tree.node? place = some .directory := nested place name (by rw [isLink]; rfl)
  intro rest other
  exact resolveFrom_append_ne nested (isDirectory_startOf holder target) onward
    (by rw [file]; exact nofun) links rest other

end

end MigrationSquash.FileTree
