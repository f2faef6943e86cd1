/-
This file proves that the values of expressions read assets only through slots that these have. An
expression reads an asset by its construct, and which attributes there are depends on how that
construct is published; so every slot that a value holds is offered by an asset in the tree.
-/

import StackSynth.Proofs.Definition.Expressions

namespace StackSynth

open Outcome

namespace Definition

/-- The value of an attribute of an asset reads slots that the asset has. -/
theorem leaves_of_assetAttribute? {packaging : Asset.Packaging} {handle : Asset.Handle}
    {name : String} {value : Deferred}
    (known : assetAttribute? packaging handle name = some value) :
    ∀ leaf ∈ value.leaves, ∃ slot ∈ packaging.slots,
      leaf = .asset handle.stack handle.hash slot := by
  cases packaging with
  | file =>
    replace known : fileAttribute? handle name = some value := known
    unfold fileAttribute? at known
    split at known <;> cases known <;> simp [Asset.Packaging.slots]
  | containerImage =>
    replace known : imageAttribute? handle name = some value := known
    unfold imageAttribute? at known
    split at known <;> cases known <;> simp [Asset.Packaging.slots]

namespace Scope

variable {scope : Scope} {site : String}

/-! ### References -/

/-- A value of which all leaves are offered by the tree of a scope. -/
def Offers (scope : Scope) (leaves : List Leaf) : Prop :=
  ∀ leaf ∈ leaves, scope.app.tree.Offers leaf

theorem Offers.append {first second : List Leaf} (offersFirst : scope.Offers first)
    (offersSecond : scope.Offers second) : scope.Offers (first ++ second) :=
  fun leaf member => (List.mem_append.mp member).elim (offersFirst leaf) (offersSecond leaf)

theorem offers_nil : scope.Offers [] := fun _ never => nomatch never

/-- What is referred to is offered. -/
theorem offers_of_refers {json : Json} {value : Deferred} (refers : scope.Refers json value) :
    scope.Offers value.leaves := by
  cases refers with
  | pseudo => exact offers_nil
  | asset isOf reads named place shape outermost known =>
    intro leaf member
    obtain ⟨slot, hasSlot, rfl⟩ := leaves_of_assetAttribute? known leaf member
    exact ⟨_, Tree.mem_assets_of_get? place shape outermost, hasSlot⟩
  | _ => exact List.forall_mem_singleton.mpr trivial

/-! ### Expressions -/

/-- An expression of which every value holds only what is offered. -/
def Harmless (scope : Scope) (site : String) (expression : Json) : Prop :=
  ∀ value, scope.value site expression = .ok value → scope.Offers value.leaves

theorem offers_leavesOfItems {items : List Json} {results : List Deferred}
    (each : List.Forall₂ (fun _ result => scope.Offers result.leaves) items results) :
    scope.Offers (Deferred.leavesOfItems results) := by
  induction each with
  | nil => exact offers_nil
  | cons head _ inductionHypothesis => exact head.append inductionHypothesis

theorem offers_leavesOfMembers {members : List (String × Json)}
    {results : List (String × Deferred)} (each : List.Forall₂ (fun member result =>
      member.1 = result.1 ∧ scope.Offers result.2.leaves) members results) :
    scope.Offers (Deferred.leavesOfMembers results) := by
  induction each with
  | nil => exact offers_nil
  | cons head _ inductionHypothesis => exact head.2.append inductionHypothesis

/-- All that the value of an expression reads of assets is offered. -/
theorem harmless (scope : Scope) (site : String) (expression : Json) :
    scope.Harmless site expression := by
  intro value found
  refine value_induction (motive := fun _ value => scope.Offers value.leaves) ?scalar ?reference
    ?pseudo ?join ?select ?split ?array ?object found
  case scalar => exact fun _ _ _ => offers_nil
  case reference => exact fun _ _ _ refers _ => offers_of_refers refers
  case pseudo => exact fun _ => offers_nil
  case join => exact fun _ _ _ parts => offers_leavesOfItems parts
  case select => exact fun _ _ _ items => items
  case split => exact fun _ _ _ source => source
  case array => exact fun _ _ items => offers_leavesOfItems items
  case object => exact fun _ _ _ members => offers_leavesOfMembers members

theorem offers_memberValues {members : List (String × Json)}
    (harmless : ∀ member ∈ members, scope.Harmless site member.2)
    {results : List (String × Deferred)} (found : scope.memberValues site members = .ok results) :
    scope.Offers (Deferred.leavesOfMembers results) :=
  offers_leavesOfMembers
    (forall₂_of_memberValues (fun _ value => scope.Offers value.leaves) harmless found)

end Scope

end Definition

end StackSynth
