/-
This file says what shape the tree of an application has, and why building keeps it. A tree is
well formed when the root is the only construct without a parent, ids are usable and distinct among
siblings, top-level stacks stand outside of stacks and carry deployable names, and everything that
a template holds stands inside one. A construct is added behind all others and never moves, so what
is known of the older ones stays known; replacing a resource by a resource changes nothing that
any of this looks at.
-/

import StackSynth.Proofs.Construct.Ancestry
import StackSynth.Proofs.Outcome

namespace StackSynth

/-- Whether a construct must stand inside a stack. -/
def Construct.needsStack : Construct → Bool
  | .nestedStack => true
  | .resource _ => true
  | .parameter _ => true
  | .output _ => true
  | .asset _ _ => true
  | _ => false

namespace Tree

/-- The shape of every tree that an application builds. -/
structure WellFormed (tree : Tree) : Prop where
  root : tree.get? rootId = some ⟨"", none, .root⟩
  /-- Every other construct has an older parent. -/
  parented : ∀ {node found}, tree.get? node = some found → node ≠ rootId →
    ∃ parent, found.parent = some parent ∧ parent < node
  /-- Ids are not empty and have no slash. -/
  usableId : ∀ {node found}, tree.get? node = some found → node ≠ rootId →
    found.id ≠ "" ∧ '/' ∉ found.id.toList
  /-- Siblings have different ids. -/
  siblings : ∀ {first second firstNode secondNode}, tree.get? first = some firstNode →
    tree.get? second = some secondNode → firstNode.parent = secondNode.parent →
    firstNode.id = secondNode.id → first = second
  /-- Top-level stacks stand in no stack and have a name to be deployed under. -/
  outermost : ∀ {node found options}, tree.get? node = some found →
    found.construct = .topLevelStack options →
    tree.parentStack? node = none ∧ Naming.isStackName (tree.stackName node) = true
  /-- Nested stacks and what templates hold stand in a stack. -/
  enclosed : ∀ {node found}, tree.get? node = some found → found.construct.needsStack = true →
    ∃ stack, tree.parentStack? node = some stack

variable {tree : Tree} {node stack : NodeId}

theorem parent?_eq_some {parent : NodeId} (found : tree.parent? node = some parent) :
    ∃ place, tree.get? node = some place ∧ place.parent = some parent := by
  rw [parent?, Option.bind_eq_some_iff] at found
  exact found

theorem get?_of_isStack (isStack : tree.isStack node = true) :
    ∃ found, tree.get? node = some found ∧ found.construct.isStack = true := by
  rw [Tree.isStack] at isStack
  split at isStack
  · exact ⟨_, by assumption, isStack⟩
  · cases isStack

theorem get?_of_isNested (isNested : tree.isNested node = true) :
    ∃ found, tree.get? node = some found ∧ found.construct = .nestedStack := by
  rw [Tree.isNested] at isNested
  split at isNested
  · rename_i found place
    refine ⟨found, place, ?_⟩
    cases shape : found.construct <;> rw [shape] at isNested <;> first | rfl | cases isNested
  · cases isNested

theorem isStack_of_isNested (isNested : tree.isNested node = true) : tree.isStack node = true := by
  obtain ⟨found, place, shape⟩ := get?_of_isNested isNested
  rw [Tree.isStack, place]
  simp only [shape, Construct.isStack]

namespace WellFormed

variable (wellFormed : tree.WellFormed)
include wellFormed

theorem ordered : tree.Ordered where
  rootless := by rw [parent?, wellFormed.root]; rfl
  older := by
    intro node parent found
    obtain ⟨place, atNode, above⟩ := parent?_eq_some found
    have notRoot : node ≠ rootId := by
      rintro rfl
      rw [wellFormed.root] at atNode
      cases atNode
      cases above
    obtain ⟨other, parentOther, older⟩ := wellFormed.parented atNode notRoot
    rw [above] at parentOther
    cases parentOther
    exact older

theorem rootIsNoStack : tree.RootIsNoStack := by
  rw [RootIsNoStack, Tree.isStack, wellFormed.root]
  rfl

/-- A stack is nested exactly if there is a stack around it. -/
theorem isNested_iff (isStack : tree.isStack stack = true) :
    tree.isNested stack = true ↔ ∃ parent, tree.parentStack? stack = some parent := by
  obtain ⟨found, place, stackShape⟩ := get?_of_isStack isStack
  constructor
  · intro isNested
    obtain ⟨other, samePlace, nestedShape⟩ := get?_of_isNested isNested
    exact wellFormed.enclosed samePlace (by rw [nestedShape]; rfl)
  · rintro ⟨parent, around⟩
    cases shape : found.construct with
    | topLevelStack options =>
      rw [(wellFormed.outermost place shape).1] at around
      cases around
    | nestedStack =>
      rw [Tree.isNested, place]
      simp only [shape, Construct.isNestedStack]
    | _ =>
      rw [shape] at stackShape
      cases stackShape

theorem outermost_of_not_isNested (isStack : tree.isStack stack = true)
    (notNested : tree.isNested stack = false) : tree.parentStack? stack = none := by
  cases around : tree.parentStack? stack with
  | none => rfl
  | some parent =>
    rw [(wellFormed.isNested_iff isStack).mpr ⟨parent, around⟩] at notNested
    cases notNested

theorem isNested_of_outermost (isStack : tree.isStack stack = true)
    (outermost : tree.parentStack? stack = none) : tree.isNested stack = false := by
  cases isNested : tree.isNested stack with
  | false => rfl
  | true =>
    obtain ⟨_, around⟩ := (wellFormed.isNested_iff isStack).mp isNested
    rw [outermost] at around
    cases around

theorem stackChain_of_nested {parent : NodeId} (isStack : tree.isStack stack = true)
    (around : tree.parentStack? stack = some parent) :
    tree.stackChain stack = stack :: tree.stackChain parent := by
  rw [stackChain_of_isStack wellFormed.ordered wellFormed.rootIsNoStack isStack, around]

theorem stackChain_of_outermost (isStack : tree.isStack stack = true)
    (around : tree.parentStack? stack = none) : tree.stackChain stack = [stack] := by
  rw [stackChain_of_isStack wellFormed.ordered wellFormed.rootIsNoStack isStack, around]

theorem stackOf?_stack (isStack : tree.isStack stack = true) :
    tree.stackOf? stack = some stack :=
  stackOf?_of_isStack wellFormed.ordered wellFormed.rootIsNoStack isStack

/-- A stack that is not nested has a name to be deployed under. -/
theorem isStackName_stackName (isStack : tree.isStack stack = true)
    (notNested : tree.isNested stack = false) :
    Naming.isStackName (tree.stackName stack) = true := by
  obtain ⟨found, place, stackShape⟩ := get?_of_isStack isStack
  cases shape : found.construct with
  | topLevelStack options => exact (wellFormed.outermost place shape).2
  | nestedStack =>
    rw [Tree.isNested, place] at notNested
    simp only [shape, Construct.isNestedStack, Bool.true_eq_false] at notNested
  | _ =>
    rw [shape] at stackShape
    cases stackShape

/-- No two constructs have one path. -/
theorem pathComponents_injective : ∀ {node other found last},
    tree.get? node = some found → tree.get? other = some last →
      tree.pathComponents node = tree.pathComponents other → node = other := by
  have below : ∀ {node found}, tree.get? node = some found → node ≠ rootId → ∃ parent above,
      found.parent = some parent ∧ parent < node ∧ tree.get? parent = some above ∧
        tree.pathComponents node = tree.pathComponents parent ++ [found.id] := by
    intro node found place notRoot
    obtain ⟨parent, isParent, older⟩ := wellFormed.parented place notRoot
    have within : parent < tree.nodes.size :=
      Nat.lt_trans older (Array.getElem?_eq_some_iff.mp place).1
    exact ⟨parent, _, isParent, older, Array.getElem?_eq_getElem within,
      pathComponents_of_parent wellFormed.ordered place isParent⟩
  have ofRoot : tree.pathComponents rootId = [] := by
    rw [pathComponents, ancestors_root]
    rfl
  intro node
  induction node using Nat.strongRecOn with
  | _ node inductionHypothesis =>
    intro other found last place placeToo samePath
    by_cases atRoot : node = rootId
    · subst atRoot
      by_contra apart
      obtain ⟨_, _, _, _, _, path⟩ := below placeToo (Ne.symm apart)
      rw [ofRoot, path] at samePath
      exact List.append_ne_nil_of_right_ne_nil _ (List.cons_ne_nil _ _) samePath.symm
    · obtain ⟨parent, above, isParent, older, atParent, path⟩ := below place atRoot
      by_cases otherAtRoot : other = rootId
      · rw [otherAtRoot, ofRoot, path] at samePath
        exact absurd samePath (List.append_ne_nil_of_right_ne_nil _ (List.cons_ne_nil _ _))
      · obtain ⟨parentToo, aboveToo, isParentToo, _, atParentToo, pathToo⟩ :=
          below placeToo otherAtRoot
        rw [path, pathToo] at samePath
        obtain ⟨sameAbove, sameId⟩ := List.append_inj' samePath rfl
        have sameParent := inductionHypothesis parent older atParent atParentToo sameAbove
        refine wellFormed.siblings place placeToo ?_ (List.singleton_inj.mp sameId)
        rw [isParent, isParentToo, sameParent]

end WellFormed

/-! ### Trees that look alike -/

/-- Two constructs in their places look alike when they differ in nothing but what a resource
holds. -/
inductive LooksLike : Node → Node → Prop where
  | same (node : Node) : LooksLike node node
  | resource (id : String) (parent : Option NodeId) (first second : Resource) :
    LooksLike ⟨id, parent, .resource first⟩ ⟨id, parent, .resource second⟩

namespace LooksLike

variable {first second : Node} (alike : LooksLike first second)
include alike

theorem id : first.id = second.id := by cases alike <;> rfl

theorem parent : first.parent = second.parent := by cases alike <;> rfl

theorem isStack : first.construct.isStack = second.construct.isStack := by cases alike <;> rfl

theorem needsStack : first.construct.needsStack = second.construct.needsStack := by
  cases alike <;> rfl

theorem options {options : StackOptions} :
    first.construct = .topLevelStack options ↔ second.construct = .topLevelStack options := by
  cases alike with
  | same => rfl
  | resource =>
    constructor
    · intro impossible
      cases impossible
    · intro impossible
      cases impossible

end LooksLike

/-- Two trees whose constructs below a bound look alike. -/
def AlikeBelow (bound : Nat) (first second : Tree) : Prop :=
  ∀ node, node < bound →
    (first.get? node = none ∧ second.get? node = none) ∨
      ∃ one other, first.get? node = some one ∧ second.get? node = some other ∧
        LooksLike one other

namespace AlikeBelow

variable {bound : Nat} {first second : Tree} (alike : AlikeBelow bound first second)
include alike

theorem parent? (within : node < bound) : first.parent? node = second.parent? node := by
  rcases alike node within with ⟨none₁, none₂⟩ | ⟨one, other, some₁, some₂, same⟩
  · rw [Tree.parent?, Tree.parent?, none₁, none₂]
  · rw [Tree.parent?, Tree.parent?, some₁, some₂]
    exact same.parent

theorem isStack (within : node < bound) : first.isStack node = second.isStack node := by
  rcases alike node within with ⟨none₁, none₂⟩ | ⟨one, other, some₁, some₂, same⟩
  · rw [Tree.isStack, Tree.isStack, none₁, none₂]
  · rw [Tree.isStack, Tree.isStack, some₁, some₂]
    exact same.isStack

theorem ids (within : node < bound) :
    (first.get? node).map Node.id = (second.get? node).map Node.id := by
  rcases alike node within with ⟨none₁, none₂⟩ | ⟨one, other, some₁, some₂, same⟩
  · rw [none₁, none₂]
  · rw [some₁, some₂]
    exact congrArg some same.id

variable (ordered : first.Ordered)
include ordered

theorem ancestors : ∀ {node}, node < bound → first.ancestors node = second.ancestors node := by
  intro node
  induction node using Nat.strongRecOn with
  | _ node inductionHypothesis =>
    intro within
    by_cases atRoot : node = rootId
    · rw [atRoot, ancestors_root, ancestors_root]
    · rw [Tree.ancestors, Tree.ancestors, ← alike.parent? within]
      cases found : first.parent? node with
      | none => rfl
      | some parent =>
        have older := ordered.older found
        simp only [older, if_true, inductionHypothesis parent older (Nat.lt_trans older within)]

theorem isStack_ancestors (within : node < bound) {above : NodeId}
    (member : above ∈ first.ancestors node) : first.isStack above = second.isStack above :=
  alike.isStack (Nat.lt_of_le_of_lt (le_of_mem_ancestors ordered member) within)

theorem parentStack? (within : node < bound) :
    first.parentStack? node = second.parentStack? node := by
  rw [Tree.parentStack?, Tree.parentStack?, ← alike.ancestors ordered within]
  refine congrArg List.head? (List.filter_congr fun above member => ?_)
  exact alike.isStack_ancestors ordered within (List.mem_of_mem_tail member)

theorem stackChain (within : node < bound) : first.stackChain node = second.stackChain node := by
  rw [Tree.stackChain, Tree.stackChain, ← alike.ancestors ordered within]
  exact List.filter_congr fun above member => alike.isStack_ancestors ordered within member

theorem stackOf? (within : node < bound) : first.stackOf? node = second.stackOf? node :=
  congrArg List.head? (alike.stackChain ordered within)

theorem topLevelOf? (within : node < bound) : first.topLevelOf? node = second.topLevelOf? node :=
  congrArg List.getLast? (alike.stackChain ordered within)

theorem pathComponents (within : node < bound) :
    first.pathComponents node = second.pathComponents node := by
  rw [Tree.pathComponents, Tree.pathComponents, idsOf, idsOf, ← alike.ancestors ordered within]
  refine congrArg List.reverse (List.filterMap_congr fun above member => ?_)
  exact alike.ids (Nat.lt_of_le_of_lt (le_of_mem_ancestors ordered member) within)

theorem stackName (within : node < bound) : first.stackName node = second.stackName node := by
  have samePath := alike.pathComponents ordered within
  rw [Tree.stackName, Tree.stackName, Tree.uniqueId, Tree.uniqueId, samePath]
  rcases alike node within with ⟨none₁, none₂⟩ | ⟨one, other, some₁, some₂, same⟩
  · rw [none₁, none₂]
  · rw [some₁, some₂]
    cases same <;> rfl

end AlikeBelow

end Tree

end StackSynth
