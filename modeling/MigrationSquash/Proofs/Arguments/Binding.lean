import Mathlib.Data.List.Nodup
import MigrationSquash.Code.Arguments

/-!
# Binding arguments

Arguments reach the slots of their parameters by name or by place.  Main statements: where all
arguments name different parameters, each slot holds what its name is given, in whichever order
they stand; where none has a name, the slots are filled from the first one on.
-/

set_option autoImplicit false

namespace MigrationSquash.Code

variable {parameters : List Text}

theorem set_map_of_mem {α : Type} (distinct : parameters.Nodup) {index : Nat} {name : Text}
    (found : parameters.findIdx? (· = name) = some index) (f : Text → α) (value : α) :
    (parameters.map f).set index value =
      parameters.map fun p => if p = name then value else f p := by
  obtain ⟨inside, here, -⟩ := List.findIdx?_eq_some_iff_getElem.1 found
  obtain rfl : parameters[index] = name := of_decide_eq_true here
  refine List.ext_getElem (by simp) fun i left right => ?_
  rw [List.getElem_set, List.getElem_map, List.getElem_map]
  simp only [List.Nodup.getElem_inj_iff distinct, eq_comm]

/-- Arguments that name different parameters reach them in any order. -/
theorem bindFrom_named (distinct : parameters.Nodup) (arguments : List (Text × Text))
    (known : ∀ argument ∈ arguments, argument.1 ∈ parameters)
    (different : (arguments.map (·.1)).Nodup) (next : Nat) (f : Text → Option Text) :
    bindFrom parameters next (parameters.map f)
        (arguments.map fun argument => ⟨some argument.1, argument.2⟩) =
      parameters.map fun p => (arguments.lookup p).or (f p) := by
  induction arguments generalizing f with
  | nil => rfl
  | cons argument rest ih =>
      obtain ⟨name, value⟩ := argument
      rw [List.map_cons, List.nodup_cons] at different
      obtain ⟨index, found⟩ : ∃ index, parameters.findIdx? (· = name) = some index := by
        rw [← Option.isSome_iff_exists, List.findIdx?_isSome, List.any_eq_true]
        exact ⟨name, known _ List.mem_cons_self, decide_eq_true rfl⟩
      have absent : rest.lookup name = none := by
        rw [List.lookup_eq_none_iff]
        intro later member
        have other : name ≠ later.1 := fun same =>
          different.1 (List.mem_map.2 ⟨later, member, same.symm⟩)
        simpa using other
      rw [List.map_cons, bindFrom]
      simp only [found]
      rw [set_map_of_mem distinct found, ih (fun a member => known a (List.mem_cons_of_mem _ member))
        different.2]
      refine List.map_congr_left fun p _ => ?_
      by_cases here : p = name
      · subst here
        simp [absent]
      · have unequal : (p == name) = false := beq_false_of_ne here
        rw [if_neg here, List.lookup_cons, unequal]

/-- Arguments without names fill the slots from the next one on. -/
theorem bindFrom_positional (parameters values : List Text) (front slots : List (Option Text))
    (fits : values.length ≤ slots.length) :
    bindFrom parameters front.length (front ++ slots) (values.map fun value => ⟨none, value⟩) =
      front ++ (values.map some ++ slots.drop values.length) := by
  induction values generalizing front slots with
  | nil => rfl
  | cons value rest ih =>
      cases slots with
      | nil => cases fits
      | cons slot others =>
          have step := ih (front ++ [some value]) others (Nat.le_of_succ_le_succ fits)
          rw [List.length_append, List.length_singleton, List.append_assoc] at step
          have filled : (front ++ slot :: others).set front.length (some value) =
              front ++ ([some value] ++ others) := by
            simp
          rw [List.map_cons, bindFrom]
          simp only
          rw [filled, step]
          simp

theorem bind_named (distinct : parameters.Nodup) (arguments : List (Text × Text))
    (known : ∀ argument ∈ arguments, argument.1 ∈ parameters)
    (different : (arguments.map (·.1)).Nodup) :
    bind parameters (arguments.map fun argument => ⟨some argument.1, argument.2⟩) =
      parameters.map fun p => arguments.lookup p := by
  rw [bind, bindFrom_named distinct arguments known different]
  simp

theorem bind_positional (distinct : parameters.Nodup) (values : List Text)
    (fits : values.length ≤ parameters.length) :
    bind parameters (values.map fun value => ⟨none, value⟩) =
      parameters.map fun p => (parameters.zip values).lookup p := by
  have filled := bindFrom_positional parameters values []
    (parameters.map fun _ => none) (by simpa using fits)
  refine filled.trans ?_
  rw [List.nil_append]
  clear filled
  induction parameters generalizing values with
  | nil =>
      obtain rfl := List.eq_nil_of_length_eq_zero (Nat.le_zero.1 fits)
      rfl
  | cons p rest ih =>
      obtain ⟨new, others⟩ := List.nodup_cons.1 distinct
      cases values with
      | nil => simp
      | cons value more =>
          have step := ih others more (Nat.le_of_succ_le_succ fits)
          have skipped : (rest.map fun q => ((p :: rest).zip (value :: more)).lookup q) =
              rest.map fun q => (rest.zip more).lookup q := by
            refine List.map_congr_left fun q member => ?_
            have different : (q == p) = false := beq_false_of_ne fun same => new (same ▸ member)
            rw [List.zip_cons_cons, List.lookup_cons, different]
          have own : ((p :: rest).zip (value :: more)).lookup p = some value := List.lookup_cons_self
          refine Eq.trans ?_ (List.map_cons (l := rest)).symm
          rw [own, skipped, ← step]
          rfl

end MigrationSquash.Code
