import MigrationSquash.Proofs.Scan.Spots

/-!
# Depth of blocks

Braces lead from one depth to another, unless one of them closes what is not open.  Main
statements: the closing brace that matches is the first one behind braces that lead back to
depth zero, and the first block of a list of places is an opening brace with only closing
ones before it, such braces, and the closing brace.
-/

set_option autoImplicit false

namespace MigrationSquash.Code

/-- The depth that braces lead to, unless one of them closes what is not open. -/
def depthAfter? : Nat → List BraceKind → Option Nat
  | depth, [] => some depth
  | depth, .opening :: rest => depthAfter? (depth + 1) rest
  | 0, .closing :: _ => none
  | depth + 1, .closing :: rest => depthAfter? depth rest

theorem depthAfter?_append (depth : Nat) (left right : List BraceKind) :
    depthAfter? depth (left ++ right) =
      (depthAfter? depth left).bind (depthAfter? · right) := by
  induction left generalizing depth with
  | nil => rfl
  | cons kind rest ih =>
      cases kind with
      | opening => exact ih (depth + 1)
      | closing =>
          cases depth with
          | zero => rfl
          | succ depth => exact ih depth

theorem depthAfter?_add {depth reached : Nat} {kinds : List BraceKind} (outer : Nat)
    (run : depthAfter? depth kinds = some reached) :
    depthAfter? (depth + outer) kinds = some (reached + outer) := by
  induction kinds generalizing depth with
  | nil =>
      obtain rfl := Option.some.inj run
      rfl
  | cons kind rest ih =>
      cases kind with
      | opening =>
          have inner := ih run
          rwa [Nat.add_right_comm] at inner
      | closing =>
          cases depth with
          | zero => cases run
          | succ depth =>
              have inner : depthAfter? (depth + outer) rest = some (reached + outer) := ih run
              rwa [Nat.add_right_comm depth 1 outer]

theorem BraceKind.balance_append (kinds more : List BraceKind) :
    balance (kinds ++ more) = balance kinds + balance more := by
  induction kinds with
  | nil => simp [balance]
  | cons kind rest ih =>
      rw [List.cons_append, balance, balance, ih]
      omega

/-- An opening brace counts exactly where it is code. -/
theorem BraceKind.balance_append_opening_iff {mode : Mode} {kinds : List BraceKind} :
    balance (kinds ++ (mode.braceAt? '{').toList) = balance kinds + 1 ↔ mode.isCode = true := by
  rw [balance_append, Mode.braceAt?]
  cases mode.isCode with
  | true => simp [braceKind?, balance, delta]
  | false =>
      simp only [Bool.false_eq_true, if_false, iff_false, Option.toList_none, balance, Int.add_zero]
      omega

/-- How many more braces the lines open than they close, read off their kinds. -/
theorem totalDelta_eq (lines : List Text) :
    totalDelta lines = BraceKind.balance (Mode.code.kindsOfLines lines) := by
  have general : ∀ (carry : Carry),
      (scanLines carry lines).foldr (fun scan total => scan.delta + total) 0 =
        BraceKind.balance (carry.mode.kindsOfLines lines) := by
    induction lines with
    | nil => intro carry; rfl
    | cons line rest ih =>
        intro carry
        have kinds := Mode.map_kind_braces carry.mode 0 line
        rw [scanLines, List.foldr_cons, ih, scanLine_eq_scan, Mode.kindsOfLines_cons,
          BraceKind.balance_append, ← kinds]
        rfl
  exact general .code

/-- How much deeper braces lead than where they start. -/
theorem balance_of_depthAfter? {depth reached : Nat} {kinds : List BraceKind}
    (run : depthAfter? depth kinds = some reached) :
    (depth : Int) + BraceKind.balance kinds = reached := by
  induction kinds generalizing depth with
  | nil =>
      obtain rfl := Option.some.inj run
      exact Int.add_zero _
  | cons kind rest ih =>
      cases kind with
      | opening =>
          have inner : ((depth + 1 : Nat) : Int) + BraceKind.balance rest = reached := ih run
          have one : BraceKind.opening.delta = 1 := rfl
          rw [BraceKind.balance, one]
          omega
      | closing =>
          cases depth with
          | zero => cases run
          | succ depth =>
              have inner : (depth : Int) + BraceKind.balance rest = reached := ih run
              have one : BraceKind.closing.delta = -1 := rfl
              rw [BraceKind.balance, one]
              omega

/-- Braces that close all they open. -/
def Balanced (kinds : List BraceKind) : Prop := depthAfter? 0 kinds = some 0

namespace Balanced

theorem nil : Balanced [] := rfl

theorem append {left right : List BraceKind} (first : Balanced left) (second : Balanced right) :
    Balanced (left ++ right) := by
  rw [Balanced, depthAfter?_append, first]
  exact second

theorem block {kinds : List BraceKind} (inner : Balanced kinds) :
    Balanced (.opening :: kinds ++ [.closing]) := by
  have inside : depthAfter? 1 kinds = some 1 := depthAfter?_add 1 inner
  rw [Balanced, List.cons_append, depthAfter?, depthAfter?_append, inside]
  rfl

theorem balance {kinds : List BraceKind} (balanced : Balanced kinds) :
    BraceKind.balance kinds = 0 := by
  have total := balance_of_depthAfter? balanced
  omega

/-- The first braces of matching ones close no more than they open. -/
theorem prefix_nonneg {left right : List BraceKind} (balanced : Balanced (left ++ right)) :
    0 ≤ BraceKind.balance left := by
  rw [Balanced, depthAfter?_append] at balanced
  obtain ⟨reached, first, -⟩ := Option.bind_eq_some_iff.1 balanced
  have total := balance_of_depthAfter? first
  omega

end Balanced

/-- The matching brace is the first one behind braces that lead back. -/
theorem closing?_eq_some_iff {depth : Nat} {braces : List (Spot × BraceKind)} {spot : Spot} :
    closing? depth braces = some spot ↔
      ∃ inner rest, braces = inner ++ (spot, .closing) :: rest ∧
        depthAfter? depth (inner.map (·.2)) = some 0 := by
  induction braces generalizing depth with
  | nil => simp [closing?]
  | cons brace rest ih =>
      obtain ⟨here, kind⟩ := brace
      cases kind with
      | opening =>
          rw [closing?, ih]
          constructor
          · rintro ⟨inner, others, rfl, level⟩
            exact ⟨(here, .opening) :: inner, others, rfl, level⟩
          · rintro ⟨inner, others, split, level⟩
            cases inner with
            | nil => simp at split
            | cons first inner =>
                obtain ⟨rfl, rfl⟩ := List.cons.inj split
                exact ⟨inner, others, rfl, level⟩
      | closing =>
          cases depth with
          | zero =>
              rw [closing?]
              constructor
              · intro same
                obtain rfl := Option.some.inj same
                exact ⟨[], rest, rfl, rfl⟩
              · rintro ⟨inner, others, split, level⟩
                cases inner with
                | nil => simp_all
                | cons first inner =>
                    obtain ⟨rfl, rfl⟩ := List.cons.inj split
                    cases level
          | succ depth =>
              rw [closing?, ih]
              constructor
              · rintro ⟨inner, others, rfl, level⟩
                exact ⟨(here, .closing) :: inner, others, rfl, level⟩
              · rintro ⟨inner, others, split, level⟩
                cases inner with
                | nil => cases level
                | cons first inner =>
                    obtain ⟨rfl, rfl⟩ := List.cons.inj split
                    exact ⟨inner, others, rfl, level⟩

/-- The first block of a list of places. -/
theorem firstBlock?_eq_some_iff {braces : List (Spot × BraceKind)} {opening closing : Spot} :
    firstBlock? braces = some (opening, closing) ↔
      ∃ skipped inner rest,
        braces = skipped ++ (opening, .opening) :: (inner ++ (closing, .closing) :: rest) ∧
        (∀ kind ∈ skipped.map (·.2), kind = .closing) ∧ Balanced (inner.map (·.2)) := by
  induction braces with
  | nil => simp [firstBlock?]
  | cons brace rest ih =>
      obtain ⟨here, kind⟩ := brace
      cases kind with
      | opening =>
          rw [firstBlock?, Option.map_eq_some_iff]
          constructor
          · rintro ⟨spot, found, same⟩
            obtain ⟨rfl, rfl⟩ := Prod.mk.inj same
            obtain ⟨inner, others, rfl, level⟩ := closing?_eq_some_iff.1 found
            exact ⟨[], inner, others, rfl, by simp, level⟩
          · rintro ⟨skipped, inner, others, split, allClosing, level⟩
            cases skipped with
            | nil =>
                obtain ⟨same, rfl⟩ := List.cons.inj split
                obtain ⟨rfl, -⟩ := Prod.mk.inj same
                exact ⟨closing, closing?_eq_some_iff.2 ⟨inner, others, rfl, level⟩, rfl⟩
            | cons first skipped =>
                obtain ⟨rfl, rfl⟩ := List.cons.inj split
                cases allClosing .opening (by simp)
      | closing =>
          rw [firstBlock?, ih]
          constructor
          · rintro ⟨skipped, inner, others, rfl, allClosing, level⟩
            refine ⟨(here, .closing) :: skipped, inner, others, rfl, ?_, level⟩
            simpa using allClosing
          · rintro ⟨skipped, inner, others, split, allClosing, level⟩
            cases skipped with
            | nil => simp at split
            | cons first skipped =>
                obtain ⟨rfl, rfl⟩ := List.cons.inj split
                refine ⟨skipped, inner, others, rfl, ?_, level⟩
                intro kind member
                exact allClosing kind (List.mem_cons_of_mem _ member)

/-- Whether a block inside of which `depth` more blocks are open is closed. -/
def closes : Nat → List BraceKind → Bool
  | _, [] => false
  | depth, .opening :: rest => closes (depth + 1) rest
  | 0, .closing :: _ => true
  | depth + 1, .closing :: rest => closes depth rest

/-- Whether the first block is closed. -/
def hasBlock : List BraceKind → Bool
  | [] => false
  | .opening :: rest => closes 0 rest
  | .closing :: rest => hasBlock rest

theorem isSome_closing? (depth : Nat) (braces : List (Spot × BraceKind)) :
    (closing? depth braces).isSome = closes depth (braces.map (·.2)) := by
  induction braces generalizing depth with
  | nil => rfl
  | cons brace rest ih =>
      obtain ⟨spot, kind⟩ := brace
      cases kind with
      | opening => exact ih (depth + 1)
      | closing =>
          cases depth with
          | zero => rfl
          | succ depth => exact ih depth

theorem isSome_firstBlock? (braces : List (Spot × BraceKind)) :
    (firstBlock? braces).isSome = hasBlock (braces.map (·.2)) := by
  induction braces with
  | nil => rfl
  | cons brace rest ih =>
      obtain ⟨spot, kind⟩ := brace
      cases kind with
      | opening =>
          rw [firstBlock?, Option.isSome_map, isSome_closing?]
          rfl
      | closing => exact ih

theorem closes_append {depth reached : Nat} {left : List BraceKind} (right : List BraceKind)
    (run : depthAfter? depth left = some reached) :
    closes depth (left ++ right) = closes reached right := by
  induction left generalizing depth with
  | nil =>
      obtain rfl := Option.some.inj run
      rfl
  | cons kind rest ih =>
      cases kind with
      | opening => exact ih run
      | closing =>
          cases depth with
          | zero => cases run
          | succ depth => exact ih run

theorem Balanced.closes_append {inner : List BraceKind} (balanced : Balanced inner) (depth : Nat)
    (right : List BraceKind) : closes depth (inner ++ right) = closes depth right := by
  have run := depthAfter?_add depth balanced
  rw [Nat.zero_add] at run
  exact Code.closes_append right run

section Swap

variable {old new : List BraceKind} (oldBalanced : Balanced old) (newBalanced : Balanced new)
include oldBalanced newBalanced

theorem closes_swap (depth : Nat) (left right : List BraceKind) :
    closes depth (left ++ .opening :: (new ++ right)) =
      closes depth (left ++ .opening :: (old ++ right)) := by
  induction left generalizing depth with
  | nil =>
      rw [List.nil_append, List.nil_append, closes, closes, oldBalanced.closes_append,
        newBalanced.closes_append]
  | cons kind rest ih =>
      cases kind with
      | opening => exact ih (depth + 1)
      | closing =>
          cases depth with
          | zero => rfl
          | succ depth => exact ih depth

/-- What is in a block has no part in whether there is a first block around or before it. -/
theorem hasBlock_swap (left right : List BraceKind) :
    hasBlock (left ++ .opening :: (new ++ right)) =
      hasBlock (left ++ .opening :: (old ++ right)) := by
  induction left with
  | nil =>
      rw [List.nil_append, List.nil_append, hasBlock, hasBlock, oldBalanced.closes_append,
        newBalanced.closes_append]
  | cons kind rest ih =>
      cases kind with
      | opening => exact closes_swap oldBalanced newBalanced 0 rest right
      | closing => exact ih

end Swap

end MigrationSquash.Code
