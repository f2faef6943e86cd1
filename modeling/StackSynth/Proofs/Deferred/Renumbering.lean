/-
This file gives the constructs of deferred values other numbers. A deferred value names constructs
in its leaves and nowhere else, so its leaves are renumbered with it, and where each leaf is written
as the one with the other number, the value is written as the value with the other numbers.
-/

import Mathlib.Logic.Equiv.Defs
import StackSynth.Deferred.Basic
import StackSynth.Proofs.Concurrence

namespace StackSynth

open Outcome

/-- The leaf when every construct has another number. -/
def Leaf.renumber (number : NodeId ≃ NodeId) : Leaf → Leaf
  | .construct node attr => .construct (number node) attr
  | .asset top hash slot => .asset (number top) hash slot
  | .stack owner attr => .stack (number owner) attr

namespace Deferred

mutual

/-- The value when every construct has another number. -/
def renumber (number : NodeId ≃ NodeId) : Deferred → Deferred
  | .literal value => .literal value
  | .pseudo parameter => .pseudo parameter
  | .leaf produced => .leaf (produced.renumber number)
  | .join separator parts => .join separator (renumberItems number parts)
  | .select index items => .select index (renumber number items)
  | .split separator source => .split separator (renumber number source)
  | .list items => .list (renumberItems number items)
  | .object members => .object (renumberMembers number members)

/-- The items when every construct has another number. -/
def renumberItems (number : NodeId ≃ NodeId) : List Deferred → List Deferred
  | [] => []
  | item :: rest => renumber number item :: renumberItems number rest

/-- The members when every construct has another number. -/
def renumberMembers (number : NodeId ≃ NodeId) :
    List (String × Deferred) → List (String × Deferred)
  | [] => []
  | (name, value) :: rest => (name, renumber number value) :: renumberMembers number rest

end

end Deferred

variable {number : NodeId ≃ NodeId}

theorem Leaf.renumber_injective {first second : Leaf}
    (same : first.renumber number = second.renumber number) : first = second := by
  cases first <;> cases second <;> simp_all [renumber]

theorem Leaf.renumber_refl (leaf : Leaf) : leaf.renumber (Equiv.refl NodeId) = leaf := by
  cases leaf <;> rfl

namespace Deferred

/-! ### The same numbers -/

mutual

theorem renumber_refl (value : Deferred) : value.renumber (Equiv.refl NodeId) = value := by
  match value with
  | .literal _ | .pseudo _ => rfl
  | .leaf produced => rw [renumber, Leaf.renumber_refl]
  | .join _ parts => rw [renumber, renumberItems_refl parts]
  | .select _ items => rw [renumber, renumber_refl items]
  | .split _ source => rw [renumber, renumber_refl source]
  | .list items => rw [renumber, renumberItems_refl items]
  | .object members => rw [renumber, renumberMembers_refl members]

theorem renumberItems_refl (items : List Deferred) :
    renumberItems (Equiv.refl NodeId) items = items := by
  match items with
  | [] => rfl
  | item :: rest => rw [renumberItems, renumber_refl item, renumberItems_refl rest]

theorem renumberMembers_refl (members : List (String × Deferred)) :
    renumberMembers (Equiv.refl NodeId) members = members := by
  match members with
  | [] => rfl
  | (name, value) :: rest =>
    rw [renumberMembers, renumber_refl value, renumberMembers_refl rest]

end

/-! ### Leaves -/

mutual

theorem leaves_renumber (value : Deferred) :
    (value.renumber number).leaves = value.leaves.map (Leaf.renumber number) := by
  match value with
  | .literal _ | .pseudo _ | .leaf _ => rfl
  | .join _ parts => exact leavesOfItems_renumber parts
  | .select _ items => exact leaves_renumber items
  | .split _ source => exact leaves_renumber source
  | .list items => exact leavesOfItems_renumber items
  | .object members => exact leavesOfMembers_renumber members

theorem leavesOfItems_renumber (items : List Deferred) :
    leavesOfItems (renumberItems number items) =
      (leavesOfItems items).map (Leaf.renumber number) := by
  match items with
  | [] => rfl
  | item :: rest =>
    rw [renumberItems, leavesOfItems, leavesOfItems, List.map_append, leaves_renumber item,
      leavesOfItems_renumber rest]

theorem leavesOfMembers_renumber (members : List (String × Deferred)) :
    leavesOfMembers (renumberMembers number members) =
      (leavesOfMembers members).map (Leaf.renumber number) := by
  match members with
  | [] => rfl
  | (name, value) :: rest =>
    rw [renumberMembers, leavesOfMembers, leavesOfMembers, List.map_append, leaves_renumber value,
      leavesOfMembers_renumber rest]

end

/-! ### Resolution -/

variable {ε δ : Type} {view : Leaf → Except ε Template.Value}
  {viewToo : Leaf → Except δ Template.Value}

mutual

theorem resolve_renumber
    (views : ∀ leaf, Concur (· = ·) (view leaf) (viewToo (leaf.renumber number)))
    (value : Deferred) :
    Concur (· = ·) (value.resolve view) ((value.renumber number).resolve viewToo) := by
  match value with
  | .literal _ | .pseudo _ => exact .ok rfl
  | .leaf produced => exact views produced
  | .join _ parts =>
    refine (resolveItems_renumber views parts).bind ?_
    rintro written _ rfl
    exact .ok rfl
  | .select _ items =>
    refine (resolve_renumber views items).bind ?_
    rintro written _ rfl
    exact .ok rfl
  | .split _ source =>
    refine (resolve_renumber views source).bind ?_
    rintro written _ rfl
    exact .ok rfl
  | .list items =>
    refine (resolveItems_renumber views items).bind ?_
    rintro written _ rfl
    exact .ok rfl
  | .object members =>
    refine (resolveMembers_renumber views members).bind ?_
    rintro written _ rfl
    exact .ok rfl

theorem resolveItems_renumber
    (views : ∀ leaf, Concur (· = ·) (view leaf) (viewToo (leaf.renumber number)))
    (items : List Deferred) :
    Concur (· = ·) (resolveItems view items)
      (resolveItems viewToo (renumberItems number items)) := by
  match items with
  | [] => exact .ok rfl
  | item :: rest =>
    refine (resolve_renumber views item).bind ?_
    rintro written _ rfl
    refine (resolveItems_renumber views rest).bind ?_
    rintro others _ rfl
    exact .ok rfl

theorem resolveMembers_renumber
    (views : ∀ leaf, Concur (· = ·) (view leaf) (viewToo (leaf.renumber number)))
    (members : List (String × Deferred)) :
    Concur (· = ·) (resolveMembers view members)
      (resolveMembers viewToo (renumberMembers number members)) := by
  match members with
  | [] => exact .ok rfl
  | (name, value) :: rest =>
    refine (resolve_renumber views value).bind ?_
    rintro written _ rfl
    refine (resolveMembers_renumber views rest).bind ?_
    rintro others _ rfl
    exact .ok rfl

end

end Deferred

end StackSynth
