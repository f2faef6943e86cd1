/-
This file compares the values of an expression in two scopes that show the same constructs, perhaps
under other numbers. An expression finds constructs by their paths and asks what kind of construct
it has found, which attributes it has, or which asset it is and in which top-level stack it lies; so
where one scope yields a value, the other one yields it with its own numbers. Outputs cannot be
referred to, so it does not matter which of them are there.
-/

import StackSynth.Proofs.Construct.Renumbering
import StackSynth.Proofs.Definition.Offering

namespace StackSynth

open Outcome

/-- What expressions see of a construct: of a resource not the properties. -/
def Construct.face : Construct → Construct
  | .resource content => .resource { content with properties := [] }
  | other => other

/-- Whether a construct is an output. -/
def Construct.isOutput : Construct → Bool
  | .output _ => true
  | _ => false

namespace Construct

variable {seen : Construct}

theorem resource_of_face {content : Resource}
    (same : seen.face = (Construct.resource content).face) :
    ∃ other, seen = .resource other ∧ other.attributes = content.attributes := by
  cases seen with
  | resource other =>
    simp only [face, resource.injEq, Resource.mk.injEq] at same
    exact ⟨other, rfl, same.2.2⟩
  | _ => cases same

theorem parameter_of_face {declaration : ParameterDecl}
    (same : seen.face = (Construct.parameter declaration).face) :
    seen = .parameter declaration := by
  cases seen with
  | parameter other => exact same
  | _ => cases same

theorem asset_of_face {hash : ContentHash} {packaging : Asset.Packaging}
    (same : seen.face = (Construct.asset hash packaging).face) : seen = .asset hash packaging := by
  cases seen with
  | asset other found => exact same
  | _ => cases same

theorem isStack_of_face {construct : Construct} (same : seen.face = construct.face) :
    seen.isStack = construct.isStack := by
  cases construct <;> cases seen <;> first | rfl | cases same

end Construct

/-- The handle of an asset when every construct has another number. -/
def Asset.Handle.renumber (number : NodeId ≃ NodeId) (handle : Asset.Handle) : Asset.Handle :=
  ⟨number handle.node, number handle.stack, handle.hash⟩

namespace Definition

variable {number : NodeId ≃ NodeId}

/-! ### Values of assets -/

/-- The values of an asset name its top-level stack and nothing else. -/
theorem assetAttribute?_renumber {packaging : Asset.Packaging} {handle : Asset.Handle}
    {name : String} {value : Deferred}
    (known : assetAttribute? packaging handle name = some value) :
    assetAttribute? packaging (handle.renumber number) name = some (value.renumber number) := by
  cases packaging with
  | file =>
    replace known : fileAttribute? handle name = some value := known
    show fileAttribute? (handle.renumber number) name = _
    unfold fileAttribute? at known ⊢
    split at known <;> cases known <;> rfl
  | containerImage =>
    replace known : imageAttribute? handle name = some value := known
    show imageAttribute? (handle.renumber number) name = _
    unfold imageAttribute? at known ⊢
    split at known <;> cases known <;> rfl

namespace Scope

/-- All that expressions can refer to in the first scope shows the same face in the second, in the
top-level stack of the other number. -/
def Shows (number : NodeId ≃ NodeId) (first second : Scope) : Prop :=
  ∀ path node found, first.paths.get? path = some node →
    first.app.tree.get? node = some found → found.construct.isOutput = false →
    second.paths.get? path = some (number node) ∧
      (∃ other, second.app.tree.get? (number node) = some other ∧
        other.construct.face = found.construct.face) ∧
      second.app.tree.topLevelOf? (number node) = (first.app.tree.topLevelOf? node).map number

variable {first second : Scope} {site : String} {value : Deferred} {argument : Json}

section References

variable (shows : first.Shows number second)
include shows

/-- What is found at a path in one scope is found there in the other. -/
theorem Shows.find {path : String} {node : NodeId} {found : Node}
    (known : first.find site path = .ok node) (place : first.app.tree.find node = .ok found)
    (noOutput : found.construct.isOutput = false) :
    second.find site path = .ok (number node) ∧
      (∃ other, second.app.tree.find (number node) = .ok other ∧
        other.construct.face = found.construct.face) ∧
      second.app.tree.topLevelOf? (number node) = (first.app.tree.topLevelOf? node).map number := by
  obtain ⟨knownToo, ⟨other, placeToo, sameFace⟩, sameTop⟩ :=
    shows path node found (find_eq_ok.mp known) (Tree.find_eq_ok.mp place) noOutput
  exact ⟨find_eq_ok.mpr knownToo, ⟨other, Tree.find_eq_ok.mpr placeToo, sameFace⟩, sameTop⟩

theorem Shows.referenceValue (done : first.referenceValue site argument = .ok value) :
    second.referenceValue site argument = .ok (value.renumber number) := by
  obtain ⟨name, isName, done⟩ := bind_eq_ok.mp done
  refine bind_eq_ok.mpr ⟨name, isName, ?_⟩
  split at done
  · cases done
    rfl
  · obtain ⟨node, known, done⟩ := bind_eq_ok.mp done
    obtain ⟨found, place, done⟩ := bind_eq_ok.mp (mapError_eq_ok.mp done)
    split at done
    · rename_i content shape
      cases done
      obtain ⟨knownToo, ⟨other, placeToo, sameFace⟩, _⟩ :=
        shows.find known place (by rw [shape]; rfl)
      obtain ⟨contentToo, shapeToo, _⟩ := Construct.resource_of_face (shape ▸ sameFace)
      refine bind_eq_ok.mpr ⟨_, knownToo, mapError_eq_ok.mpr (bind_eq_ok.mpr ⟨other, placeToo, ?_⟩)⟩
      rw [shapeToo]
      rfl
    · rename_i declaration shape
      cases done
      obtain ⟨knownToo, ⟨other, placeToo, sameFace⟩, _⟩ :=
        shows.find known place (by rw [shape]; rfl)
      refine bind_eq_ok.mpr ⟨_, knownToo, mapError_eq_ok.mpr (bind_eq_ok.mpr ⟨other, placeToo, ?_⟩)⟩
      have shapeToo := Construct.parameter_of_face (shape ▸ sameFace)
      rw [shapeToo]
      rfl
    · cases done

theorem Shows.attributeValue (done : first.attributeValue site argument = .ok value) :
    second.attributeValue site argument = .ok (value.renumber number) := by
  obtain ⟨⟨path, name⟩, isPair, done⟩ := bind_eq_ok.mp done
  obtain ⟨node, known, done⟩ := bind_eq_ok.mp done
  obtain ⟨found, place, done⟩ := bind_eq_ok.mp (mapError_eq_ok.mp done)
  split at done
  · rename_i content shape
    obtain ⟨knownToo, ⟨other, placeToo, sameFace⟩, _⟩ :=
      shows.find known place (by rw [shape]; rfl)
    obtain ⟨contentToo, shapeToo, sameAttributes⟩ := Construct.resource_of_face (shape ▸ sameFace)
    refine bind_eq_ok.mpr ⟨_, isPair, bind_eq_ok.mpr ⟨_, knownToo,
      mapError_eq_ok.mpr (bind_eq_ok.mpr ⟨other, placeToo, ?_⟩)⟩⟩
    rw [shapeToo]
    have sameHas : contentToo.hasAttribute name = content.hasAttribute name := by
      rw [Resource.hasAttribute, Resource.hasAttribute, sameAttributes]
    dsimp only
    rw [sameHas]
    split at done
    · rename_i has
      cases done
      rw [if_pos has]
      rfl
    · cases done
  · cases done

theorem Shows.identityValue {attr : StackAttribute}
    (done : first.identityValue site attr argument = .ok value) :
    second.identityValue site attr argument = .ok (value.renumber number) := by
  obtain ⟨path, isPath, done⟩ := bind_eq_ok.mp done
  obtain ⟨node, known, done⟩ := bind_eq_ok.mp done
  obtain ⟨found, place, done⟩ := bind_eq_ok.mp (mapError_eq_ok.mp done)
  split at done
  · rename_i isStack
    cases done
    have noOutput : found.construct.isOutput = false := by
      cases shape : found.construct <;> first | rfl | (rw [shape] at isStack; cases isStack)
    obtain ⟨knownToo, ⟨other, placeToo, sameFace⟩, _⟩ := shows.find known place noOutput
    refine bind_eq_ok.mpr ⟨_, isPath, bind_eq_ok.mpr ⟨_, knownToo,
      mapError_eq_ok.mpr (bind_eq_ok.mpr ⟨other, placeToo, ?_⟩)⟩⟩
    rw [if_pos ((Construct.isStack_of_face sameFace).trans isStack)]
    rfl
  · cases done

theorem Shows.assetValue {asset attr : Json} (done : first.assetValue site asset attr = .ok value) :
    second.assetValue site asset attr = .ok (value.renumber number) := by
  obtain ⟨path, isPath, done⟩ := bind_eq_ok.mp done
  obtain ⟨node, known, done⟩ := bind_eq_ok.mp done
  obtain ⟨name, isName, done⟩ := bind_eq_ok.mp done
  obtain ⟨found, place, done⟩ := bind_eq_ok.mp done
  have place := mapError_eq_ok.mp place
  split at done
  · rename_i hash packaging shape
    obtain ⟨knownToo, ⟨other, placeToo, sameFace⟩, sameTop⟩ :=
      shows.find known place (by rw [shape]; rfl)
    have shapeToo := Construct.asset_of_face (shape ▸ sameFace)
    obtain ⟨handle, handled, done⟩ := bind_eq_ok.mp done
    have handledToo : second.app.assetHandle (number node) = .ok (handle.renumber number) := by
      obtain ⟨again, placeAgain, handled⟩ := bind_eq_ok.mp (mapError_eq_ok.mp handled)
      rw [place] at placeAgain
      cases placeAgain
      refine bind_eq_ok.mpr ⟨other, placeToo, ?_⟩
      rw [shapeToo]
      rw [shape] at handled
      dsimp only at handled ⊢
      rw [sameTop]
      split at handled
      · rename_i top outermost
        cases handled
        rw [outermost]
        rfl
      · cases handled
    refine bind_eq_ok.mpr ⟨_, isPath, bind_eq_ok.mpr ⟨_, knownToo, bind_eq_ok.mpr ⟨_, isName,
      bind_eq_ok.mpr ⟨other, mapError_eq_ok.mpr placeToo, ?_⟩⟩⟩⟩
    rw [shapeToo]
    refine bind_eq_ok.mpr ⟨_, mapError_eq_ok.mpr handledToo, ?_⟩
    split at done
    · rename_i has
      cases done
      rw [assetAttribute?_renumber has]
      rfl
    · cases done
  · cases done

end References

theorem pseudoValue_renumber (done : pseudoValue site argument = .ok value) :
    pseudoValue site argument = .ok (value.renumber number) := by
  rw [done]
  obtain ⟨name, _, done⟩ := bind_eq_ok.mp done
  split at done <;> cases done
  rfl

/-! ### Expressions -/

/-- An expression of which every value in the first scope is its value in the second, up to
numbers. -/
def Agrees (number : NodeId ≃ NodeId) (first second : Scope) (site : String) (expression : Json) :
    Prop :=
  ∀ value, first.value site expression = .ok value →
    second.value site expression = .ok (value.renumber number)

theorem values_renumber {items : List Json}
    (agrees : ∀ item ∈ items, Agrees number first second site item) :
    ∀ {results : List Deferred}, first.values site items = .ok results →
      second.values site items = .ok (Deferred.renumberItems number results) := by
  induction items with
  | nil =>
    intro results done
    cases done
    rfl
  | cons item rest inductionHypothesis =>
    intro results done
    obtain ⟨head, doneHead, done⟩ := bind_eq_ok.mp done
    obtain ⟨others, doneRest, same⟩ := bind_eq_ok.mp done
    cases same
    exact bind_eq_ok.mpr ⟨_, agrees item List.mem_cons_self head doneHead, bind_eq_ok.mpr ⟨_,
      inductionHypothesis (fun other member => agrees other (List.mem_cons_of_mem _ member))
        doneRest, rfl⟩⟩

theorem memberValues_renumber {members : List (String × Json)}
    (agrees : ∀ member ∈ members, Agrees number first second site member.2) :
    ∀ {results : List (String × Deferred)}, first.memberValues site members = .ok results →
      second.memberValues site members = .ok (Deferred.renumberMembers number results) := by
  induction members with
  | nil =>
    intro results done
    cases done
    rfl
  | cons member rest inductionHypothesis =>
    intro results done
    obtain ⟨name, expression⟩ := member
    obtain ⟨head, doneHead, done⟩ := bind_eq_ok.mp done
    obtain ⟨others, doneRest, same⟩ := bind_eq_ok.mp done
    cases same
    exact bind_eq_ok.mpr ⟨_, agrees (name, expression) List.mem_cons_self head doneHead,
      bind_eq_ok.mpr ⟨_,
        inductionHypothesis (fun other member => agrees other (List.mem_cons_of_mem _ member))
          doneRest, rfl⟩⟩

section Expressions

variable (shows : first.Shows number second)
include shows

/-- The value of an object with one member, from those of what is written in the member. -/
theorem Shows.agrees_single {name : String} {argument : Json}
    (smaller : ∀ inner : Json, sizeOf inner ≤ sizeOf argument →
      Agrees number first second site inner) :
    Agrees number first second site (.object [(name, argument)]) := by
  intro value done
  rw [Scope.value] at done ⊢
  split at done
  · exact shows.referenceValue done
  · exact shows.attributeValue done
  · unfold Scope.joinValue at done
    split at done
    · rename_i separator parts
      obtain ⟨results, doneParts, same⟩ := bind_eq_ok.mp done
      cases same
      refine bind_eq_ok.mpr ⟨_, values_renumber (fun item member => smaller item ?_) doneParts, rfl⟩
      have less := List.sizeOf_lt_of_mem member
      simp
      omega
    · cases done
    · cases done
  · unfold Scope.selectValue at done ⊢
    split at done
    · rename_i index items
      split at done
      · obtain ⟨inner, doneItems, same⟩ := bind_eq_ok.mp done
        cases same
        exact bind_eq_ok.mpr ⟨_, smaller items (by simp; omega) inner doneItems, rfl⟩
      · cases done
    · cases done
  · unfold Scope.splitValue at done
    split at done
    · rename_i separator source
      obtain ⟨inner, doneSource, same⟩ := bind_eq_ok.mp done
      cases same
      exact bind_eq_ok.mpr ⟨_, smaller source (by simp; omega) inner doneSource, rfl⟩
    · cases done
    · cases done
  · exact pseudoValue_renumber done
  · exact shows.identityValue done
  · obtain ⟨member, doneMember, same⟩ := bind_eq_ok.mp done
    cases same
    exact bind_eq_ok.mpr ⟨_, smaller argument (Nat.le_refl _) member doneMember, rfl⟩

/-- Where an expression has a value in one scope, it has the same value in the other. -/
theorem Shows.agrees (site : String) (expression : Json) :
    Agrees number first second site expression := by
  induction size : sizeOf expression using Nat.strongRecOn generalizing expression with
  | _ bound inductionHypothesis =>
    subst size
    have smaller : ∀ inner : Json, sizeOf inner < sizeOf expression →
        Agrees number first second site inner :=
      fun inner less => inductionHypothesis _ less inner rfl
    intro value done
    cases expression with
    | array items =>
      obtain ⟨results, doneItems, same⟩ := bind_eq_ok.mp done
      cases same
      refine bind_eq_ok.mpr ⟨_, values_renumber (fun item member => smaller item ?_) doneItems, rfl⟩
      have less := List.sizeOf_lt_of_mem member
      simp only [Json.array.sizeOf_spec]
      omega
    | object members =>
      unfold Scope.value at done
      split at done
      · rename_i never
        cases never
      · rename_i name argument same
        cases same
        refine shows.agrees_single (fun inner less => smaller inner ?_) value done
        simp
        omega
      · rename_i plain same
        cases same
        rw [Scope.value]
        swap
        · exact plain
        split at done
        · exact shows.assetValue done
        · obtain ⟨results, doneMembers, same⟩ := bind_eq_ok.mp done
          cases same
          refine bind_eq_ok.mpr
            ⟨_, memberValues_renumber (fun member listed => smaller member.2 ?_) doneMembers, rfl⟩
          obtain ⟨name, inner⟩ := member
          have less := List.sizeOf_lt_of_mem listed
          simp only [Prod.mk.sizeOf_spec] at less
          simp only [Json.object.sizeOf_spec]
          omega
      · rename_i never
        exact absurd rfl (never members)
    | _ =>
      cases done
      rfl

theorem Shows.memberValues {members : List (String × Json)} {results : List (String × Deferred)}
    (done : first.memberValues site members = .ok results) :
    second.memberValues site members = .ok (Deferred.renumberMembers number results) :=
  memberValues_renumber (fun member _ => shows.agrees site member.2) done

end Expressions

end Scope

end Definition

end StackSynth
