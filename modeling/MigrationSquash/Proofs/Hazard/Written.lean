import MigrationSquash.Proofs.Arguments.Binding
import MigrationSquash.Proofs.Arguments.Literals
import MigrationSquash.Proofs.Arguments.Named
import MigrationSquash.Proofs.Hazard.Calls

/-!
# Written calls

A call as the tools of migrations write it: a receiver, a method and arguments that are string
literals, all with the names of their parameters or all in the order of the parameters.  Such a
call is read back as what was written, whatever stands around it.  Main statement: a drop of what
a rename before it produced is found in every text that holds the two calls.
-/

set_option autoImplicit false

namespace MigrationSquash

open Text (AllBlank isBlank isWord isWordStart trim width)
open Code (argument? namedArgument? bind literalValue)

/-! ## Arguments -/

/-- A string literal as an argument.  Blanks may stand around it, and around the name of its
parameter where it has one. -/
structure WrittenValue where
  value : Text
  lead : Text
  behindName : Text
  beforeValue : Text
  trail : Text
  unbroken : '\n' ∉ value
  blank : AllBlank (lead ++ (behindName ++ (beforeValue ++ trail)))

/-- An argument with or without the name of its parameter. -/
def WrittenValue.text (written : WrittenValue) : Option Text → Text
  | some name => written.lead ++ (name ++ (written.behindName ++ ':' ::
      (written.beforeValue ++ (Code.quote written.value ++ written.trail))))
  | none => written.lead ++ (Code.quote written.value ++ written.trail)

/-- Arguments for some of the parameters: all name theirs, or all stand in their order. -/
inductive WrittenArguments (parameters : List Text) where
  | named (arguments : List (Text × WrittenValue))
      (known : ∀ argument ∈ arguments, argument.1 ∈ parameters)
      (distinct : (arguments.map (·.1)).Nodup)
  | positional (arguments : List WrittenValue) (fits : arguments.length ≤ parameters.length)

namespace WrittenValue

variable {written : WrittenValue} {name : Text}

theorem blanks (written : WrittenValue) :
    (AllBlank written.lead ∧ AllBlank written.behindName) ∧
      AllBlank written.beforeValue ∧ AllBlank written.trail := by
  refine ⟨⟨?_, ?_⟩, ?_, ?_⟩ <;> exact fun c member => written.blank c (by simp [member])

theorem plain_of_blank {c : Char} (blank : isBlank c = true) : Code.Plain c :=
  Code.plain_of_noMark (by decide) blank

theorem plain_of_word {c : Char} (word : isWord c = true) : Code.Plain c :=
  Code.plain_of_noMark (by decide) word

theorem plain_colon : Code.Plain ':' := by decide

theorem copies_text {name : Option Text} (parameter : ∀ p ∈ name, IsParameter p) :
    Code.Copies .code (written.text name) .code := by
  obtain ⟨⟨lead, behindName⟩, beforeValue, trail⟩ := written.blanks
  have copies {s : Text} (blank : AllBlank s) : Code.Copies .code s .code :=
    Code.copies_plain fun c member => plain_of_blank (blank c member)
  have value := (Code.copies_quote written.unbroken).append (copies trail)
  cases name with
  | none => exact (copies lead).append value
  | some name =>
      have nameCopied : Code.Copies .code name .code :=
        Code.copies_plain fun c member => plain_of_word ((parameter name rfl).word c member)
      have colon : Code.Copies .code [':'] .code :=
        Code.copies_plain fun c member => by
          obtain rfl := List.mem_singleton.1 member
          exact plain_colon
      exact (copies lead).append (nameCopied.append ((copies behindName).append
        (colon.append ((copies beforeValue).append value))))

/-- A literal is not taken for an argument with a name. -/
theorem namedArgument?_quote (s : Text) : namedArgument? (Code.quote s) = none := rfl

theorem namedArgument?_named (parameter : IsParameter name) {behindName beforeValue : Text}
    (behindBlank : AllBlank behindName) (beforeBlank : AllBlank beforeValue) (s : Text) :
    namedArgument? (name ++ (behindName ++ ':' :: (beforeValue ++ Code.quote s))) =
      some ⟨some name, Code.quote s⟩ := by
  obtain ⟨next, value, split⟩ : ∃ next value, beforeValue ++ Code.quote s = next :: value :=
    List.exists_cons_of_ne_nil (by simp [Code.quote])
  have noColon : next ≠ ':' := by
    cases beforeValue with
    | nil =>
        obtain ⟨rfl, -⟩ := List.cons.inj split
        decide
    | cons c rest =>
        obtain ⟨rfl, -⟩ := List.cons.inj split
        rintro rfl
        exact absurd (beforeBlank ':' List.mem_cons_self) (by decide)
  have read := Code.namedArgument?_named (Or.inl rfl) parameter behindBlank noColon value
  rw [List.nil_append] at read
  rw [split, read, ← split, Text.trim_blanks_append beforeBlank, Code.trim_quote]

theorem argument?_text {name : Option Text} (parameter : ∀ p ∈ name, IsParameter p) :
    argument? (written.text name) = some ⟨name, Code.quote written.value⟩ := by
  obtain ⟨⟨lead, behindName⟩, beforeValue, trail⟩ := written.blanks
  cases name with
  | none =>
      rw [text, Code.argument?_blanks lead trail (Code.trim_quote _) (by simp [Code.quote]),
        namedArgument?_quote]
      rfl
  | some name =>
      obtain ⟨first, others, rfl, -, visible⟩ := (parameter name rfl).exists_cons
      have trimmed : trim (first :: others ++ (written.behindName ++ ':' ::
          (written.beforeValue ++ Code.quote written.value))) = first :: others ++
            (written.behindName ++ ':' :: (written.beforeValue ++ Code.quote written.value)) := by
        refine Text.trim_of_visible rfl (List.getLast?_eq_some_iff.2 ⟨first :: others ++
          (written.behindName ++ ':' :: (written.beforeValue ++ '"' :: Code.escape written.value)),
          ?_⟩) visible (d := '"') (by decide)
        simp [Code.quote]
      have whole : written.text (some (first :: others)) = written.lead ++
          (first :: others ++ (written.behindName ++ ':' ::
            (written.beforeValue ++ Code.quote written.value)) ++ written.trail) := by
        simp [text]
      rw [whole, Code.argument?_blanks lead trail trimmed (by simp),
        namedArgument?_named (parameter _ rfl) behindName beforeValue]
      rfl

end WrittenValue

namespace WrittenArguments

variable {parameters : List Text} (written : WrittenArguments parameters)

/-- The arguments in their order, with the names that are written. -/
def items : List (Option Text × WrittenValue) :=
  match written with
  | named arguments _ _ => arguments.map fun argument => (some argument.1, argument.2)
  | positional arguments _ => arguments.map fun argument => (none, argument)

/-- What is given for a parameter. -/
def value? (parameter : Text) : Option Text :=
  match written with
  | named arguments _ _ => (arguments.map fun a => (a.1, a.2.value)).lookup parameter
  | positional arguments _ => (parameters.zip (arguments.map (·.value))).lookup parameter

/-- The text between the parentheses. -/
def text : Text := Text.join [','] (written.items.map fun item => item.2.text item.1)

/-- The call of a method with the arguments, from its dot on. -/
def call (method : Text) : Text := '.' :: (method ++ '(' :: (written.text ++ [')']))

theorem argumentsFrom?_text (parameter : ∀ p ∈ parameters, IsParameter p) (back : Text) : ∃ stop,
    Code.argumentsFrom? 0 (written.text ++ ')' :: back) =
      some (written.items.map fun item => ⟨item.1, Code.quote item.2.value⟩, stop) := by
  have named : ∀ item ∈ written.items, ∀ p ∈ item.1, IsParameter p := by
    intro item member p name
    cases written with
    | named arguments known _ =>
        obtain ⟨argument, inside, rfl⟩ := List.mem_map.1 member
        obtain rfl := Option.some.inj name
        exact parameter _ (known argument inside)
    | positional arguments _ =>
        obtain ⟨argument, -, rfl⟩ := List.mem_map.1 member
        cases name
  obtain ⟨stop, divided⟩ := Code.segments?_join
    (written.items.map fun item => item.2.text item.1) (by
      intro s member
      obtain ⟨item, inside, rfl⟩ := List.mem_map.1 member
      exact WrittenValue.copies_text (named item inside)) 0 back
  refine ⟨stop, ?_⟩
  rw [Code.argumentsFrom?, text, divided, Option.map_some]
  congr 2
  cases items : written.items with
  | nil => rfl
  | cons first rest =>
      rw [items] at named
      change ((first :: rest).map fun item => item.2.text item.1).filterMap argument? = _
      rw [List.filterMap_map, ← List.filterMap_eq_map]
      exact List.filterMap_congr fun item member => WrittenValue.argument?_text (named item member)

variable {written}

/-- The values of literals among named values. -/
theorem bind_lookup_quote (values : List (Text × Text)) (p : Text) :
    ((values.map fun value => (value.1, Code.quote value.2)).lookup p).bind literalValue =
      values.lookup p := by
  induction values with
  | nil => rfl
  | cons value rest ih =>
      rw [List.map_cons, List.lookup_cons, List.lookup_cons]
      cases p == value.1 with
      | true => exact Code.literalValue_quote value.2
      | false => exact ih

theorem bind_items (distinct : parameters.Nodup) :
    (bind parameters (written.items.map fun item => ⟨item.1, Code.quote item.2.value⟩)).map
        (·.bind literalValue) =
      parameters.map written.value? := by
  cases written with
  | named arguments known different =>
      have bound := Code.bind_named distinct
        ((arguments.map fun a => (a.1, a.2.value)).map fun value => (value.1, Code.quote value.2))
        (by
          intro argument member
          obtain ⟨_, pair, rfl⟩ := List.mem_map.1 member
          obtain ⟨written, inside, rfl⟩ := List.mem_map.1 pair
          exact known written inside)
        (by simpa [Function.comp_def] using different)
      have same : (items (.named arguments known different)).map
            (fun item => (⟨item.1, Code.quote item.2.value⟩ : Code.Argument)) =
          ((arguments.map fun a => (a.1, a.2.value)).map fun value =>
            (value.1, Code.quote value.2)).map fun argument => ⟨some argument.1, argument.2⟩ := by
        simp [items]
      rw [same, bound, List.map_map]
      exact List.map_congr_left fun p _ => bind_lookup_quote _ p
  | positional arguments fits =>
      have bound := Code.bind_positional distinct (arguments.map fun a => Code.quote a.value)
        (by simpa using fits)
      have same : (items (.positional arguments fits)).map
            (fun item => (⟨item.1, Code.quote item.2.value⟩ : Code.Argument)) =
          (arguments.map fun a => Code.quote a.value).map fun value => ⟨none, value⟩ := by
        simp [items]
      have values : parameters.zip (arguments.map fun a => Code.quote a.value) =
          (parameters.zip (arguments.map (·.value))).map fun value =>
            (value.1, Code.quote value.2) := by
        rw [← Function.comp_def Code.quote, ← List.map_map, List.zip_map_right]
        rfl
      rw [same, bound, List.map_map, values]
      exact List.map_congr_left fun p _ => bind_lookup_quote _ p

/-- What is written is read back, whatever follows. -/
theorem opens_call (written : WrittenArguments parameters) (method : Text)
    (parameter : ∀ p ∈ parameters, IsParameter p)
    (distinct : parameters.Nodup) (back : Text) :
    Call.Opens method parameters (parameters.map fun p => (p, written.value? p))
      (written.call method ++ back) := by
  obtain ⟨stop, given⟩ := written.argumentsFrom?_text parameter back
  refine ⟨[], [], written.text ++ ')' :: back, _, stop, nofun, nofun, ?_, given, ?_⟩
  · simp [call]
  · rw [bind_items distinct]
    have pairs : (parameters.map id).zip (parameters.map written.value?) =
        parameters.map fun p => (id p, written.value? p) := List.zip_map'
    rw [List.map_id] at pairs
    exact pairs.symm

end WrittenArguments

/-! ## Written events -/

theorem EntityKind.isParameter (kind : EntityKind) :
    (∀ p ∈ kind.renameParameters, IsParameter p) ∧ ∀ p ∈ kind.dropParameters, IsParameter p := by
  have all : ∀ kind ∈ EntityKind.all, ∀ p ∈ kind.renameParameters ++ kind.dropParameters,
      p.head?.any isWordStart = true ∧ p.all isWord = true := by
    decide
  constructor <;> intro p member
  · obtain ⟨starts, word⟩ := all kind kind.mem_all p (List.mem_append_left _ member)
    exact ⟨starts, List.all_eq_true.1 word⟩
  · obtain ⟨starts, word⟩ := all kind kind.mem_all p (List.mem_append_right _ member)
    exact ⟨starts, List.all_eq_true.1 word⟩

theorem EntityKind.nodup_parameters (kind : EntityKind) :
    kind.renameParameters.Nodup ∧ kind.dropParameters.Nodup := by
  cases kind <;> decide

namespace WrittenArguments

variable {kind : EntityKind}

/-- What a renamed entity is called afterwards: its new name, or its own if none is given. -/
def resulting? (rename : WrittenArguments kind.renameParameters) : Option Text :=
  (rename.value? "newName".toList).or (rename.value? "name".toList)

/-- What a renamed entity belongs to afterwards. -/
def renameScope? (rename : WrittenArguments kind.renameParameters) : Option Text :=
  kind.renameScope.findSome? rename.value?

/-- What a dropped entity belongs to. -/
def dropScope? (drop : WrittenArguments kind.dropParameters) : Option Text :=
  drop.value? kind.dropScope

theorem value?_eq_none {parameters : List Text} (written : WrittenArguments parameters)
    {p : Text} (unknown : p ∉ parameters) : written.value? p = none := by
  cases written with
  | named arguments known different =>
      refine List.lookup_eq_none_iff.2 fun value member => ?_
      obtain ⟨argument, inside, rfl⟩ := List.mem_map.1 member
      have other : p ≠ argument.1 := fun same => unknown (same ▸ known argument inside)
      simpa using other
  | positional arguments fits =>
      refine List.lookup_eq_none_iff.2 fun value member => ?_
      have other : p ≠ value.1 := fun same => unknown (same ▸ (List.of_mem_zip member).1)
      simpa using other

/-- The values of a call that was written are those that were written. -/
theorem value?_call {parameters : List Text} (written : WrittenArguments parameters)
    (position : Nat) :
    Call.value? ⟨position, parameters.map fun p => (p, written.value? p)⟩ = written.value? := by
  funext p
  have found (list : List Text) :
      (list.map fun q => (q, written.value? q)).lookup p =
        if p ∈ list then some (written.value? p) else none := by
    induction list with
    | nil => rfl
    | cons q rest ih =>
        rw [List.map_cons, List.lookup_cons]
        by_cases same : p = q
        · simp [same]
        · rw [beq_false_of_ne same, ih]
          simp [same]
  rw [Call.value?, found]
  by_cases known : p ∈ parameters
  · rw [if_pos known]
    rfl
  · rw [if_neg known, value?_eq_none written known]
    rfl

/-- The rename that the call at a position makes. -/
def renameAt (rename : WrittenArguments kind.renameParameters) (position : Nat) (resulting : Text) :
    RenameEvent where
  kind
  scope := rename.renameScope?
  former := rename.value? "name".toList
  resulting
  position

/-- The drop that the call at a position makes. -/
def dropAt (drop : WrittenArguments kind.dropParameters) (position : Nat) (dropped : Text) :
    DropEvent where
  kind
  scope := drop.dropScope?
  dropped
  position

theorem opens_renameAt (rename : WrittenArguments kind.renameParameters) {resulting : Text}
    (names : rename.resulting? = some resulting) (position : Nat) (back : Text) :
    (rename.renameAt position resulting).Opens (rename.call kind.renameMethod ++ back) := by
  refine ⟨_, rename.opens_call _ kind.isParameter.1 kind.nodup_parameters.1 back, ?_⟩
  have same : (rename.value? "newName".toList).or (rename.value? "name".toList) = some resulting :=
    names
  simp only [renameAt, Call.rename?, value?_call, same]
  rfl

theorem opens_dropAt (drop : WrittenArguments kind.dropParameters) {dropped : Text}
    (names : drop.value? "name".toList = some dropped) (position : Nat) (back : Text) :
    (drop.dropAt position dropped).Opens (drop.call kind.dropMethod ++ back) := by
  refine ⟨_, drop.opens_call _ kind.isParameter.2 kind.nodup_parameters.2 back, ?_⟩
  simp only [dropAt, Call.drop?, value?_call, names]
  rfl

end WrittenArguments

/-- What the calls are made on. -/
def receiver : Text := "migrationBuilder".toList

/-- A drop of what a rename before it produced is found, with both calls where they stand, whatever
surrounds them. -/
theorem find_written_pair {kind : EntityKind} (rename : WrittenArguments kind.renameParameters)
    (drop : WrittenArguments kind.dropParameters) {resulting dropped : Text}
    (renames : rename.resulting? = some resulting)
    (drops : drop.value? "name".toList = some dropped)
    (sameName : Text.sameIgnoringCase dropped resulting = true)
    (sameScope : ∀ renameScope ∈ rename.renameScope?, ∀ dropScope ∈ drop.dropScope?,
      Text.sameIgnoringCase renameScope dropScope = true)
    (front between back : Text) :
    let head := front ++ receiver
    let middle := head ++ rename.call kind.renameMethod ++ between ++ receiver
    let text := middle ++ drop.call kind.dropMethod ++ back
    ⟨rename.renameAt (width head) resulting, drop.dropAt (width middle) dropped⟩ ∈
        Hazard.find text ∧
      Hazard.existsIn text = true := by
  intro head middle text
  have isRename : rename.renameAt (width head) resulting ∈ renameEvents text := by
    refine mem_renameEvents_iff.2 ⟨head, rename.call kind.renameMethod ++
      (between ++ receiver ++ drop.call kind.dropMethod ++ back), ?_, rfl,
      rename.opens_renameAt renames _ _⟩
    simp [text, middle]
  have isDrop : drop.dropAt (width middle) dropped ∈ dropEvents text :=
    mem_dropEvents_iff.2 ⟨middle, drop.call kind.dropMethod ++ back, List.append_assoc _ _ _, rfl,
      drop.opens_dropAt drops _ _⟩
  have later : width head < width middle := by
    have call : 0 < width (rename.call kind.renameMethod) := by
      rw [WrittenArguments.call, Text.width_cons]
      exact Nat.add_pos_left (Char.utf8Size_pos _) _
    simp only [middle, Text.width_append]
    omega
  have scopes : Hazard.scopesAgree rename.renameScope? drop.dropScope? = true := by
    unfold Hazard.scopesAgree
    split
    case h_1 left right leftGiven rightGiven => exact sameScope left leftGiven right rightGiven
    case h_2 => rfl
  have found : (⟨rename.renameAt (width head) resulting, drop.dropAt (width middle) dropped⟩ :
      Hazard) ∈ Hazard.find text := by
    refine Hazard.mem_find_iff.2 ⟨isRename, isDrop, ?_⟩
    simp only [Hazard.applies, Bool.and_eq_true, decide_eq_true_eq]
    exact ⟨⟨⟨rfl, later⟩, sameName⟩, scopes⟩
  exact ⟨found, Hazard.existsIn_iff.2 ⟨_, found⟩⟩

namespace Sample

/-- A value as the tools of migrations lay it out, on a line of its own. -/
def laidOut (value : Text) (unbroken : '\n' ∉ value) : WrittenValue where
  value
  lead := "\n        ".toList
  behindName := []
  beforeValue := [' ']
  trail := []
  unbroken
  blank := Text.allBlank_iff.2 (by decide)

/-- A rename of a column to a name with a backslash and a quote in it. -/
def toQuoted : WrittenArguments EntityKind.column.renameParameters :=
  .named [("newName".toList, laidOut "e\\\"mail".toList (by decide)),
    ("table".toList, laidOut "Users".toList (by decide)),
    ("name".toList, laidOut "Email".toList (by decide))] (by decide) (by decide)

/-- A drop of that column. -/
def ofQuoted : WrittenArguments EntityKind.column.dropParameters :=
  .positional [laidOut "E\\\"MAIL".toList (by decide), laidOut "users".toList (by decide)] (by decide)

end Sample

/-- The pair is found also where the text before it opens a comment and a string. -/
theorem find_written_pair_sample :
    Sample.toQuoted.resulting? = some "e\\\"mail".toList ∧
      Sample.ofQuoted.value? "name".toList = some "E\\\"MAIL".toList ∧
      Text.sameIgnoringCase "E\\\"MAIL".toList "e\\\"mail".toList = true ∧
      (∀ renameScope ∈ Sample.toQuoted.renameScope?, ∀ dropScope ∈ Sample.ofQuoted.dropScope?,
        Text.sameIgnoringCase renameScope dropScope = true) ∧
      let head := "/* @\"".toList ++ receiver
      let middle := head ++ Sample.toQuoted.call "RenameColumn".toList ++ "; // ".toList ++ receiver
      let text := middle ++ Sample.ofQuoted.call "DropColumn".toList ++ "...".toList
      ⟨Sample.toQuoted.renameAt (width head) "e\\\"mail".toList,
          Sample.ofQuoted.dropAt (width middle) "E\\\"MAIL".toList⟩ ∈ Hazard.find text ∧
        Hazard.existsIn text = true := by
  have renames : Sample.toQuoted.resulting? = some "e\\\"mail".toList := by decide
  have drops : Sample.ofQuoted.value? "name".toList = some "E\\\"MAIL".toList := by decide
  have name : Text.sameIgnoringCase "E\\\"MAIL".toList "e\\\"mail".toList = true := by decide
  have scope : ∀ renameScope ∈ Sample.toQuoted.renameScope?,
      ∀ dropScope ∈ Sample.ofQuoted.dropScope?,
        Text.sameIgnoringCase renameScope dropScope = true := by
    decide
  exact ⟨renames, drops, name, scope,
    find_written_pair Sample.toQuoted Sample.ofQuoted renames drops name scope _ _ _⟩

end MigrationSquash
