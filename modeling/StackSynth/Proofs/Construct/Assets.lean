/-
This file lists the assets that constructs of a tree are, in the order of their creation. Adding a
construct adds at most one, behind the others, and replacing a resource by a resource none.
-/

import StackSynth.Proofs.Construct.Growth
import StackSynth.Proofs.Construct.StackChain

namespace StackSynth

/-- The leaves that a construct holds. -/
def Construct.leaves : Construct → List Leaf
  | .resource content => Deferred.leavesOfMembers content.properties
  | .output spec => spec.value.leaves
  | _ => []

/-- An asset in a tree: its top-level stack, its content and how it is published. -/
structure Tree.Asset where
  top : NodeId
  hash : ContentHash
  packaging : Asset.Packaging
deriving DecidableEq

namespace Tree

/-- The asset that a construct is, if it is one. -/
def assetAt? (tree : Tree) (node : NodeId) : Option Tree.Asset :=
  match (tree.get? node).map Node.construct with
  | some (.asset hash packaging) => (tree.topLevelOf? node).map (⟨·, hash, packaging⟩)
  | _ => none

/-- The assets in the order of their creation. -/
def assets (tree : Tree) : List Tree.Asset := (List.range tree.size).filterMap tree.assetAt?

/-- How the first asset of given content in a top-level stack is published. -/
def packagingOf? (tree : Tree) (top : NodeId) (hash : ContentHash) : Option Asset.Packaging :=
  (tree.assets.find? (fun asset => asset.top = top ∧ asset.hash = hash)).map Asset.packaging

variable {tree : Tree} {node parent : NodeId} {id : String} {construct : Construct}
  {hash : ContentHash} {packaging : StackSynth.Asset.Packaging}

theorem assetAt?_of_get? {found : Node} {top : NodeId} (place : tree.get? node = some found)
    (shape : found.construct = .asset hash packaging)
    (outermost : tree.topLevelOf? node = some top) :
    tree.assetAt? node = some ⟨top, hash, packaging⟩ := by
  rw [assetAt?, place, Option.map_some, shape]
  simp [outermost]

theorem assetAt?_of_plain {found : Node} (place : tree.get? node = some found)
    (plain : ∀ hash packaging, found.construct ≠ .asset hash packaging) :
    tree.assetAt? node = none := by
  rw [assetAt?, place, Option.map_some]
  split
  · rename_i same
    exact absurd (Option.some.inj same) (plain _ _)
  · rfl

/-- An asset in the tree is one of its assets. -/
theorem mem_assets_of_get? {found : Node} {top : NodeId} (place : tree.get? node = some found)
    (shape : found.construct = .asset hash packaging)
    (outermost : tree.topLevelOf? node = some top) :
    ⟨top, hash, packaging⟩ ∈ tree.assets :=
  List.mem_filterMap.mpr ⟨node, List.mem_range.mpr (lt_of_get? place),
    assetAt?_of_get? place shape outermost⟩

/-- The assets of a tree are what its constructs are, each in its top-level stack. -/
theorem mem_assets_iff {top : NodeId} : ⟨top, hash, packaging⟩ ∈ tree.assets ↔
    ∃ node found, tree.get? node = some found ∧ found.construct = .asset hash packaging ∧
      tree.topLevelOf? node = some top := by
  constructor
  · intro listed
    obtain ⟨node, _, isAsset⟩ := List.mem_filterMap.mp listed
    unfold assetAt? at isAsset
    split at isAsset
    · rename_i shape
      obtain ⟨found, place, shape⟩ := Option.map_eq_some_iff.mp shape
      obtain ⟨outermost, itsTop, same⟩ := Option.map_eq_some_iff.mp isAsset
      cases same
      exact ⟨node, found, place, shape, itsTop⟩
    · cases isAsset
  · rintro ⟨node, found, place, shape, outermost⟩
    exact mem_assets_of_get? place shape outermost

/-- The first asset of given content is one of the assets. -/
theorem mem_assets_of_packagingOf? {top : NodeId}
    (first : tree.packagingOf? top hash = some packaging) :
    ⟨top, hash, packaging⟩ ∈ tree.assets := by
  obtain ⟨asset, found, rfl⟩ := Option.map_eq_some_iff.mp first
  have same := List.find?_some found
  rw [decide_eq_true_eq] at same
  obtain ⟨rfl, rfl⟩ := same
  exact List.mem_of_find?_eq_some found

/-- Where there is an asset, there is a first one of its content. -/
theorem exists_packagingOf? {top : NodeId} (listed : ⟨top, hash, packaging⟩ ∈ tree.assets) :
    ∃ first, tree.packagingOf? top hash = some first := by
  rw [packagingOf?]
  cases found : tree.assets.find? (fun asset => asset.top = top ∧ asset.hash = hash) with
  | some asset => exact ⟨_, rfl⟩
  | none => exact absurd (List.find?_eq_none.mp found _ listed) (by simp)

/-- The stack of an asset is a top-level one. -/
theorem WellFormed.outermost_of_mem_assets (wellFormed : tree.WellFormed) {asset : Tree.Asset}
    (listed : asset ∈ tree.assets) :
    tree.isStack asset.top = true ∧ tree.parentStack? asset.top = none := by
  obtain ⟨node, _, isAsset⟩ := List.mem_filterMap.mp listed
  unfold assetAt? at isAsset
  split at isAsset
  · obtain ⟨top, outermost, rfl⟩ := Option.map_eq_some_iff.mp isAsset
    exact wellFormed.outermost_of_topLevelOf? outermost
  · cases isAsset

/-- Trees that look alike have the same assets. -/
theorem AlikeBelow.assetAt? {bound : Nat} {first second : Tree}
    (alike : AlikeBelow bound first second) (ordered : first.Ordered) (within : node < bound) :
    first.assetAt? node = second.assetAt? node := by
  rw [Tree.assetAt?, Tree.assetAt?, alike.topLevelOf? ordered within]
  rcases alike node within with ⟨none₁, none₂⟩ | ⟨one, other, some₁, some₂, same⟩
  · rw [none₁, none₂]
  · rw [some₁, some₂]
    cases same <;> rfl

/-! ### Growth -/

section Add

variable {grown : Tree} (wellFormed : tree.WellFormed)
  (added : tree.add parent id construct = .ok (node, grown))
include wellFormed added

/-- A new construct adds the asset that it is. -/
theorem assets_add : grown.assets = tree.assets ++ (grown.assetAt? tree.size).toList := by
  obtain ⟨_, _, _, _, _, rfl⟩ := add_eq_ok.mp added
  have alike := alikeBelow_withNew tree parent id construct
  rw [assets, size_withNew, List.range_succ, List.filterMap_append, assets]
  congr 1
  refine List.filterMap_congr fun node member => ?_
  exact (alike.assetAt? wellFormed.ordered (List.mem_range.mp member)).symm

theorem assets_add_plain (plain : ∀ hash packaging, construct ≠ .asset hash packaging) :
    grown.assets = tree.assets := by
  rw [assets_add wellFormed added]
  obtain ⟨_, _, _, _, _, rfl⟩ := add_eq_ok.mp added
  have place := get?_withNew_self tree parent id construct
  rw [assetAt?_of_plain place plain, Option.toList_none, List.append_nil]

/-- A new construct that is no stack has the top-level stack of the stack it is added in. -/
theorem topLevelOf?_add (noStack : construct.isStack = false) {stack : NodeId}
    (belongs : tree.stackOf? parent = some stack) :
    grown.topLevelOf? tree.size = tree.topLevelOf? stack := by
  obtain ⟨_, _, older, _, _, rfl⟩ := add_eq_ok.mp added
  have ordered : (tree.withNew parent id construct).Ordered := ordered_withNew wellFormed older
  have alike := alikeBelow_withNew tree parent id construct
  have around : (tree.withNew parent id construct).stackOf? tree.size = some stack := by
    rw [stackOf?_of_not_isStack, parentStack?_withNew wellFormed older, belongs]
    rw [isStack, get?_withNew_self]
    exact noStack
  have inChain := (List.mem_filter.mp (stackOf?_mem belongs)).1
  have within := Nat.lt_of_le_of_lt (le_of_mem_ancestors wellFormed.ordered inChain) older
  rw [topLevelOf?, stackChain_of_stackOf? ordered around, topLevelOf?,
    alike.stackChain wellFormed.ordered within]

end Add

theorem assets_add_asset {grown : Tree} {stack top : NodeId} (wellFormed : tree.WellFormed)
    (added : tree.add parent id (.asset hash packaging) = .ok (node, grown))
    (belongs : tree.stackOf? parent = some stack) (outermost : tree.topLevelOf? stack = some top) :
    grown.assets = tree.assets ++ [⟨top, hash, packaging⟩] := by
  have itsTop := (topLevelOf?_add wellFormed added rfl belongs).trans outermost
  rw [assets_add wellFormed added]
  obtain ⟨_, _, _, _, _, rfl⟩ := add_eq_ok.mp added
  have place := get?_withNew_self tree parent id (.asset hash packaging)
  rw [assetAt?_of_get? place rfl itsTop, Option.toList_some]

/-- Replacing a resource by a resource leaves the assets. -/
theorem assets_replace {found : Node} {first second : Resource} (ordered : tree.Ordered)
    (place : tree.get? node = some found) (shape : found.construct = .resource first) :
    (tree.replace node (.resource second)).assets = tree.assets := by
  have sameSize : (tree.replace node (.resource second)).size = tree.size := Array.size_modify
  rw [assets, sameSize, assets]
  refine List.filterMap_congr fun other member => ?_
  exact ((alikeBelow_replace place shape tree.size).assetAt? ordered
    (List.mem_range.mp member)).symm

/-- A new asset decides how its content is published, unless an earlier one does. -/
theorem packagingOf?_of_append {grown : Tree} {top : NodeId}
    (appended : grown.assets = tree.assets ++ [⟨top, hash, packaging⟩]) (other : NodeId)
    (content : ContentHash) :
    grown.packagingOf? other content = (tree.packagingOf? other content).or
      (if other = top ∧ hash = content then some packaging else none) := by
  rw [packagingOf?, appended, List.find?_append, packagingOf?]
  cases tree.assets.find? (fun asset => asset.top = other ∧ asset.hash = content) with
  | some first => rfl
  | none =>
    by_cases here : other = top ∧ hash = content
    · obtain ⟨rfl, rfl⟩ := here
      simp
    · have different : ¬(top = other ∧ hash = content) := fun same => here ⟨same.1.symm, same.2⟩
      simp [here, different]

/-! ### What is read of assets -/

/-- A leaf that is a slot of an asset is one of an asset in the tree, which has the slot. -/
def Offers (tree : Tree) : Leaf → Prop
  | .asset top hash slot => ∃ packaging, ⟨top, hash, packaging⟩ ∈ tree.assets ∧
    slot ∈ packaging.slots
  | _ => True

/-- All leaves that constructs hold are offered. -/
def OffersAll (tree : Tree) : Prop :=
  ∀ node found, tree.get? node = some found → ∀ leaf ∈ found.construct.leaves, tree.Offers leaf

variable {grown : Tree} {leaf : Leaf}

/-- What is offered stays offered when there are more assets. -/
theorem Offers.mono (offers : tree.Offers leaf)
    (grows : ∀ asset ∈ tree.assets, asset ∈ grown.assets) : grown.Offers leaf := by
  cases leaf with
  | asset top hash slot =>
    obtain ⟨packaging, member, hasSlot⟩ := offers
    exact ⟨packaging, grows _ member, hasSlot⟩
  | construct => trivial
  | stack => trivial

theorem OffersAll.add (all : tree.OffersAll)
    (added : tree.add parent id construct = .ok (node, grown))
    (grows : ∀ asset ∈ tree.assets, asset ∈ grown.assets)
    (offers : ∀ leaf ∈ construct.leaves, tree.Offers leaf) : grown.OffersAll := by
  intro other found place leaf member
  obtain ⟨_, _, _, _, _, rfl⟩ := add_eq_ok.mp added
  rcases get?_withNew_eq_some.mp place with ⟨_, rfl⟩ | old
  · exact (offers leaf member).mono grows
  · exact (all other found old leaf member).mono grows

theorem OffersAll.replace {found : Node} {first second : Resource} (all : tree.OffersAll)
    (ordered : tree.Ordered) (place : tree.get? node = some found)
    (shape : found.construct = .resource first)
    (offers : ∀ leaf ∈ Deferred.leavesOfMembers second.properties, tree.Offers leaf) :
    (tree.replace node (.resource second)).OffersAll := by
  intro other seen placeOther leaf member
  have grows : ∀ asset ∈ tree.assets, asset ∈ (tree.replace node (.resource second)).assets :=
    fun _ listed => assets_replace ordered place shape ▸ listed
  rw [get?_replace] at placeOther
  obtain ⟨old, atOld, rfl⟩ := Option.map_eq_some_iff.mp placeOther
  split at member
  · exact (offers leaf member).mono grows
  · exact (all other old atOld leaf member).mono grows

end Tree

end StackSynth
