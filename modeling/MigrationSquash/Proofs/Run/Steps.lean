import MigrationSquash.Conversion
import MigrationSquash.Proofs.Files.Listing

/-!
# Steps of a run

A run ends where its first step fails, or with its last step.  A step that only looks or speaks
leaves the tree as it is, and one that changes files does what the tree allows or nothing.
-/

set_option autoImplicit false

namespace MigrationSquash

/-- The source at a path. -/
def FileTree.source? (tree : FileTree) (path : Path) : Option Source :=
  (tree.read path).toOption.bind Source.ofBytes?

/-- A source is only found in a file. -/
theorem FileTree.isFile_of_source? {tree : FileTree} {path : Path} {source : Source}
    (found : tree.source? path = some source) : tree.isFile path = true := by
  unfold source? at found
  cases resolved : tree.resolve path with
  | error error =>
      rw [read, resolved] at found
      cases found
  | ok place =>
      rw [read_of_resolve resolved] at found
      split at found
      · next content executable node => exact isFile_of_resolve resolved ⟨content, executable, node⟩
      · cases found
      · cases found

namespace Run

variable {α β : Type} {world after : World}

theorem bind_of_ok {step : Run α} {value : α} {between : World}
    (ran : step world = (.ok value, between)) (next : α → Run β) :
    (step >>= next) world = next value between := by
  unfold bind instMonad
  dsimp only
  rw [ran]

theorem bind_of_error {step : Run α} {failure : Failure} {between : World}
    (ran : step world = (.error failure, between)) (next : α → Run β) :
    (step >>= next) world = (.error failure, between) := by
  unfold bind instMonad
  dsimp only
  rw [ran]

theorem bind_eq_ok_iff {step : Run α} {next : α → Run β} {result : β} :
    (step >>= next) world = (.ok result, after) ↔
      ∃ value between, step world = (.ok value, between) ∧
        next value between = (.ok result, after) := by
  cases ran : step world with
  | mk outcome between =>
      cases outcome with
      | error failure =>
          rw [bind_of_error ran]
          simp
      | ok value =>
          rw [bind_of_ok ran]
          simp

/-- A run ends where its first step fails, or else as the rest of it does. -/
theorem bind_cases {step : Run α} {next : α → Run β} {result : Except Failure β}
    (ran : (step >>= next) world = (result, after)) :
    (∃ failure, step world = (.error failure, after) ∧ result = .error failure) ∨
      ∃ value between, step world = (.ok value, between) ∧
        next value between = (result, after) := by
  cases stepped : step world with
  | mk outcome between =>
      cases outcome with
      | error failure =>
          rw [bind_of_error stepped] at ran
          obtain ⟨rfl, rfl⟩ := Prod.mk.inj ran
          exact Or.inl ⟨failure, rfl, rfl⟩
      | ok value =>
          rw [bind_of_ok stepped] at ran
          exact Or.inr ⟨value, between, rfl, ran⟩

theorem pure_eq_ok_iff {value result : α} :
    (pure value : Run α) world = (.ok result, after) ↔ value = result ∧ world = after := by
  change (Except.ok value, world) = _ ↔ _
  simp

/-- A run that only names what its step gives ends as the step does. -/
theorem bind_pure_cases {step : Run α} {f : α → β} {result : Except Failure β}
    (ran : (step >>= fun value => pure (f value)) world = (result, after)) :
    ∃ outcome, step world = (outcome, after) ∧ result = outcome.map f := by
  rcases bind_cases ran with ⟨failure, stepped, rfl⟩ | ⟨value, between, stepped, made⟩
  · exact ⟨.error failure, stepped, rfl⟩
  · obtain ⟨rfl, rfl⟩ := Prod.mk.inj made
    exact ⟨.ok value, stepped, rfl⟩

/-- A step that leaves what is at a place, whether or not it succeeds. -/
def Spares (place : Place) (step : Run α) : Prop :=
  ∀ world, (step world).2.tree.node? place = world.tree.node? place

namespace Spares

variable {place : Place}

theorem pure (value : α) : Spares place (Pure.pure value : Run α) := fun _ => rfl

theorem bind {step : Run α} {next : α → Run β} (first : Spares place step)
    (later : ∀ value, Spares place (next value)) : Spares place (step >>= next) := by
  intro world
  have same := first world
  cases ran : step world with
  | mk outcome between =>
      rw [ran] at same
      cases outcome with
      | error failure =>
          rw [bind_of_error ran]
          exact same
      | ok value =>
          rw [bind_of_ok ran]
          exact (later value between).trans same

theorem sayIf (wanted : Bool) (line : Text) : Spares place (Run.sayIf wanted line) := by
  cases wanted
  · exact pure ()
  · exact fun _ => rfl

end Spares

/-- A step that succeeds and leaves the tree as it is. -/
def Speaks (step : Run Unit) : Prop :=
  ∀ world, (step world).1 = .ok () ∧ (step world).2.tree = world.tree

namespace Speaks

theorem pure : Speaks (Pure.pure ()) := fun _ => ⟨rfl, rfl⟩

theorem say (line : Text) : Speaks (Run.say line) := fun _ => ⟨rfl, rfl⟩

theorem warn (line : Text) : Speaks (Run.warn line) := fun _ => ⟨rfl, rfl⟩

theorem sayIf (wanted : Bool) (line : Text) : Speaks (Run.sayIf wanted line) := by
  cases wanted
  · exact pure
  · exact say line

/-- What follows such a step starts from the same tree. -/
theorem next {step : Run Unit} (speaks : Speaks step) {next : Unit → Run β}
    {result : Except Failure β} (ran : (step >>= next) world = (result, after)) :
    ∃ said, said.tree = world.tree ∧ next () said = (result, after) := by
  obtain ⟨succeeds, same⟩ := speaks world
  rcases bind_cases ran with ⟨failure, stepped, -⟩ | ⟨_, said, stepped, ran⟩
  · rw [stepped] at succeeds
    cases succeeds
  · rw [stepped] at same
    exact ⟨said, same, ran⟩

theorem bind {step : Run Unit} {next : Unit → Run Unit} (first : Speaks step)
    (later : Speaks (next ())) : Speaks (step >>= next) := by
  intro world
  cases ran : (step >>= next) world with
  | mk result after =>
      obtain ⟨said, same, ran⟩ := first.next ran
      have last := later said
      rw [ran] at last
      exact ⟨last.1, last.2.trans same⟩

end Speaks

/-- A request that succeeds is one that the tree allows. -/
theorem answer_eq_ok {request : FileRequest} {given : Except FileError α} {value : α}
    (answered : world.answer request given = .ok value) : given = .ok value := by
  unfold World.answer at answered
  split at answered
  · cases answered
  · exact answered

theorem readSource_eq_ok {path : Path} {source : Source}
    (ran : readSource path world = (.ok source, after)) :
    world.tree.source? path = some source ∧ world = after := by
  unfold readSource at ran
  split at ran
  · cases (Prod.mk.inj ran).1
  · next bytes answered =>
      split at ran
      · next found decoded =>
          obtain ⟨same, rfl⟩ := Prod.mk.inj ran
          obtain rfl := Except.ok.inj same
          rw [FileTree.source?, answer_eq_ok answered]
          exact ⟨decoded, rfl⟩
      · cases (Prod.mk.inj ran).1

theorem change_eq_ok {request : FileRequest} {operation : FileTree → Except FileError FileTree}
    {failure : FileError → Failure} {result : Unit}
    (ran : change request operation failure world = (.ok result, after)) :
    operation world.tree = .ok after.tree := by
  unfold change at ran
  split at ran
  · next tree answered =>
      obtain ⟨-, rfl⟩ := Prod.mk.inj ran
      exact answer_eq_ok answered
  · cases (Prod.mk.inj ran).1

theorem change_eq_error {request : FileRequest}
    {operation : FileTree → Except FileError FileTree} {failure : FileError → Failure}
    {failed : Failure} (ran : change request operation failure world = (.error failed, after)) :
    ∃ error, failed = failure error ∧ after.tree = world.tree := by
  unfold change at ran
  split at ran
  · cases (Prod.mk.inj ran).1
  · next error _ =>
      obtain ⟨same, rfl⟩ := Prod.mk.inj ran
      exact ⟨error, (Except.error.inj same).symm, rfl⟩

theorem readSource_eq_error {path : Path} {failed : Failure}
    (ran : readSource path world = (.error failed, after)) :
    ∃ error, failed = .read path error ∧ after.tree = world.tree := by
  unfold readSource at ran
  split at ran
  · next error _ =>
      obtain ⟨same, rfl⟩ := Prod.mk.inj ran
      exact ⟨error, (Except.error.inj same).symm, rfl⟩
  · split at ran
    · cases (Prod.mk.inj ran).1
    · obtain ⟨same, rfl⟩ := Prod.mk.inj ran
      exact ⟨.undecodable, (Except.error.inj same).symm, rfl⟩

end Run

namespace Directory

variable {world after : World}

theorem load_eq_ok {file : MigrationFile} {stored : StoredMigration}
    (ran : load file world = (.ok stored, after)) :
    world = after ∧ stored.file = file ∧ world.tree.source? file.path = some stored.source := by
  obtain ⟨source, same, read, made⟩ := Run.bind_eq_ok_iff.1 ran
  obtain ⟨found, rfl⟩ := Run.readSource_eq_ok read
  obtain ⟨rfl, rfl⟩ := Run.pure_eq_ok_iff.1 made
  exact ⟨rfl, rfl, found⟩

theorem load_eq_error {file : MigrationFile} {failure : Failure}
    (ran : load file world = (.error failure, after)) :
    (∃ error, failure = .read file.path error) ∧ after.tree = world.tree := by
  rcases Run.bind_cases ran with ⟨_, reading, ⟨⟩⟩ | ⟨source, read, -, made⟩
  · obtain ⟨error, rfl, same⟩ := Run.readSource_eq_error reading
    exact ⟨⟨error, rfl⟩, same⟩
  · cases (Prod.mk.inj made).1

theorem loadAll_eq_ok {files : List MigrationFile} {stored : List StoredMigration}
    (ran : loadAll files world = (.ok stored, after)) :
    world = after ∧ stored.map (·.file) = files ∧
      ∀ migration ∈ stored, world.tree.source? migration.path = some migration.source := by
  induction files generalizing stored with
  | nil =>
      obtain ⟨rfl, rfl⟩ := Run.pure_eq_ok_iff.1 ran
      exact ⟨rfl, rfl, by simp⟩
  | cons file rest ih =>
      obtain ⟨loaded, between, first, later⟩ := Run.bind_eq_ok_iff.1 ran
      obtain ⟨rfl, rfl, found⟩ := load_eq_ok first
      obtain ⟨others, last, rested, made⟩ := Run.bind_eq_ok_iff.1 later
      obtain ⟨rfl, rfl⟩ := Run.pure_eq_ok_iff.1 made
      obtain ⟨rfl, files, sources⟩ := ih rested
      refine ⟨rfl, by rw [List.map_cons, files], ?_⟩
      intro migration member
      rcases List.mem_cons.1 member with rfl | inRest
      · exact found
      · exact sources migration inRest

theorem require_eq (directory : Path) (world : World) : require directory world =
    if isDirectory world.tree directory = true then (.ok (), world)
    else (.error (.invalidDirectory directory), world) := by
  have asks : require directory world =
      (if isDirectory world.tree directory = true then pure ()
        else Run.fail (.invalidDirectory directory)) world := rfl
  rw [asks]
  split <;> rfl

theorem list_eq {directory : Path} {files : List MigrationFile}
    (opened : isDirectory world.tree directory = true)
    (listed : migrations world.tree directory = files) :
    list directory world = (.ok files, world) := by
  unfold list
  rw [Run.bind_of_ok ((require_eq directory world).trans (if_pos opened))]
  exact congrArg (fun files => (Except.ok files, world)) listed

/-- A run that lists the migrations ends there, or it goes on from the same world. -/
theorem bind_list_cases {α : Type} {directory : Path} {next : List MigrationFile → Run α}
    {result : Except Failure α} (ran : (list directory >>= next) world = (result, after)) :
    after = world ∧ result = .error (.invalidDirectory directory) ∨
      isDirectory world.tree directory = true ∧
        next (migrations world.tree directory) world = (result, after) := by
  by_cases opened : isDirectory world.tree directory = true
  · rw [Run.bind_of_ok (list_eq opened rfl)] at ran
    exact Or.inr ⟨opened, ran⟩
  · have ends : list directory world = (.error (.invalidDirectory directory), world) :=
      Run.bind_of_error ((require_eq directory world).trans (if_neg opened)) _
    rw [Run.bind_of_error ends] at ran
    obtain ⟨rfl, rfl⟩ := Prod.mk.inj ran
    exact Or.inl ⟨rfl, rfl⟩

theorem loadAll_eq_error {files : List MigrationFile} {failure : Failure}
    (ran : loadAll files world = (.error failure, after)) :
    (∃ file ∈ files, ∃ error, failure = .read file.path error) ∧ after.tree = world.tree := by
  induction files with
  | nil => cases (Prod.mk.inj ran).1
  | cons file rest ih =>
      rcases Run.bind_cases ran with ⟨_, loading, ⟨⟩⟩ | ⟨stored, between, loading, ran⟩
      · obtain ⟨⟨error, rfl⟩, same⟩ := load_eq_error loading
        exact ⟨⟨file, List.mem_cons_self, error, rfl⟩, same⟩
      · obtain ⟨rfl, -⟩ := load_eq_ok loading
        rcases Run.bind_cases ran with ⟨_, later, ⟨⟩⟩ | ⟨others, last, -, made⟩
        · obtain ⟨⟨other, member, error, rfl⟩, same⟩ := ih later
          exact ⟨⟨other, List.mem_cons_of_mem _ member, error, rfl⟩, same⟩
        · cases (Prod.mk.inj made).1

end Directory

end MigrationSquash
