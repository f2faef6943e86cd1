/-
This file measures stacks by their chains. Cutting a chain anywhere leaves the chain of the stack
at the cut, so a chain is at once the way up from a stack and, read backwards, the way down to it;
its length is the depth of the stack, which falls by one on the way up. The chain ends at the
top-level stack, the only one of it with no stack around.
-/

import StackSynth.Proofs.Construct.WellFormed

namespace StackSynth.Tree

/-- How many stacks a stack stands in, itself included. -/
def depth (tree : Tree) (stack : NodeId) : Nat := (tree.stackChain stack).length

variable {tree : Tree} {node stack parent other top : NodeId}

namespace WellFormed

variable (wellFormed : tree.WellFormed)
include wellFormed

theorem head_stackChain (isStack : tree.isStack stack = true) :
    ∃ above, tree.stackChain stack = stack :: above :=
  ⟨_, stackChain_of_isStack wellFormed.ordered wellFormed.rootIsNoStack isStack⟩

/-- The first stacks of a chain are passed one by one on the way up to the next one: what holds
there, and is kept from the stack around a stack to that stack, holds where the chain starts. -/
theorem cut_induction {before after : List NodeId} {motive : NodeId → List NodeId → Prop}
    (atCut : tree.isStack other = true → tree.stackChain other = other :: after → motive other [])
    (kept : ∀ {stack parent passed}, tree.isStack stack = true →
      tree.parentStack? stack = some parent → motive parent passed →
      motive stack (stack :: passed))
    (isStack : tree.isStack stack = true) (cut : tree.stackChain stack = before ++ other :: after) :
    motive stack before := by
  induction before generalizing stack with
  | nil =>
    obtain ⟨above, chain⟩ := wellFormed.head_stackChain isStack
    have head : stack = other := by
      rw [chain] at cut
      exact (List.cons.inj cut).1
    rw [← head] at cut atCut
    exact head ▸ atCut isStack cut
  | cons first rest inductionHypothesis =>
    cases around : tree.parentStack? stack with
    | none =>
      rw [wellFormed.stackChain_of_outermost isStack around] at cut
      cases rest <;> cases cut
    | some parent =>
      rw [wellFormed.stackChain_of_nested isStack around] at cut
      obtain ⟨rfl, cutAbove⟩ := List.cons.inj cut
      exact kept isStack around
        (inductionHypothesis (isStack_of_parentStack? around) cutAbove)

/-- What follows a stack in a chain is the rest of its own chain. -/
theorem stackChain_cut (isStack : tree.isStack stack = true) {before after : List NodeId}
    (cut : tree.stackChain stack = before ++ other :: after) :
    tree.isStack other = true ∧ tree.stackChain other = other :: after :=
  wellFormed.cut_induction
    (motive := fun _ _ => tree.isStack other = true ∧ tree.stackChain other = other :: after)
    (fun isStackOther chain => ⟨isStackOther, chain⟩) (fun _ _ above => above) isStack cut

/-- The chain of a stack of a chain is part of it. -/
theorem stackChain_subset (isStack : tree.isStack stack = true)
    (member : other ∈ tree.stackChain stack) : tree.stackChain other ⊆ tree.stackChain stack := by
  obtain ⟨before, after, cut⟩ := List.append_of_mem member
  rw [(wellFormed.stackChain_cut isStack cut).2, cut]
  exact List.subset_append_right before (other :: after)

/-- The last stack of a chain stands in no other. -/
theorem parentStack?_of_last (isStack : tree.isStack stack = true)
    (chain : tree.stackChain stack = [stack]) : tree.parentStack? stack = none := by
  cases around : tree.parentStack? stack with
  | none => rfl
  | some above =>
    obtain ⟨_, chainAbove⟩ := wellFormed.head_stackChain (isStack_of_parentStack? around)
    rw [wellFormed.stackChain_of_nested isStack around, chainAbove] at chain
    cases chain

/-! ### Depth -/

theorem depth_of_nested (isStack : tree.isStack stack = true)
    (around : tree.parentStack? stack = some parent) :
    tree.depth stack = tree.depth parent + 1 := by
  rw [depth, wellFormed.stackChain_of_nested isStack around, List.length_cons, depth]

/-- The stacks of a chain lie no deeper than the one it starts at. -/
theorem depth_le_of_mem (isStack : tree.isStack stack = true)
    (member : other ∈ tree.stackChain stack) : tree.depth other ≤ tree.depth stack := by
  obtain ⟨before, after, cut⟩ := List.append_of_mem member
  rw [depth, depth, (wellFormed.stackChain_cut isStack cut).2, cut, List.length_append]
  exact Nat.le_add_left _ _

/-! ### Top-level stacks -/

/-- The top-level stack around a stack stands in no other and ends its chain. -/
theorem topLevelOf?_eq_some (isStack : tree.isStack stack = true)
    (found : tree.topLevelOf? stack = some top) :
    ∃ before, tree.stackChain stack = before ++ [top] ∧ tree.isStack top = true ∧
      tree.parentStack? top = none := by
  obtain ⟨before, chain⟩ := List.getLast?_eq_some_iff.mp found
  obtain ⟨isStackTop, chainTop⟩ := wellFormed.stackChain_cut isStack chain
  exact ⟨before, chain, isStackTop, wellFormed.parentStack?_of_last isStackTop chainTop⟩

/-- Every stack has a top-level stack around it. -/
theorem exists_topLevelOf? (isStack : tree.isStack stack = true) :
    ∃ top, tree.topLevelOf? stack = some top := by
  obtain ⟨above, chain⟩ := wellFormed.head_stackChain isStack
  rw [topLevelOf?, chain]
  exact ⟨_, List.getLast?_cons⟩

/-- The stacks of a chain have one top-level stack. -/
theorem topLevelOf?_of_mem (isStack : tree.isStack stack = true)
    (member : other ∈ tree.stackChain stack) : tree.topLevelOf? other = tree.topLevelOf? stack := by
  obtain ⟨before, after, cut⟩ := List.append_of_mem member
  rw [topLevelOf?, topLevelOf?, (wellFormed.stackChain_cut isStack cut).2, cut,
    List.getLast?_append_cons]

/-- A top-level stack is its own. -/
theorem topLevelOf?_of_outermost (isStack : tree.isStack stack = true)
    (around : tree.parentStack? stack = none) : tree.topLevelOf? stack = some stack := by
  rw [topLevelOf?, wellFormed.stackChain_of_outermost isStack around, List.getLast?_singleton]

/-- A construct has the top-level stack of the stack it belongs to. -/
theorem topLevelOf?_of_stackOf? (belongs : tree.stackOf? node = some stack) :
    tree.topLevelOf? node = tree.topLevelOf? stack := by
  rw [topLevelOf?, topLevelOf?, stackChain_of_stackOf? wellFormed.ordered belongs]

/-- What stands in a top-level stack has it as its top-level stack. -/
theorem mem_ancestors_iff (isStack : tree.isStack top = true)
    (outermost : tree.parentStack? top = none) :
    top ∈ tree.ancestors node ↔ tree.topLevelOf? node = some top := by
  constructor
  · intro member
    have inChain : top ∈ tree.stackChain node := List.mem_filter.mpr ⟨member, isStack⟩
    obtain ⟨stack, above, chain⟩ := List.exists_cons_of_ne_nil (List.ne_nil_of_mem inChain)
    have belongs : tree.stackOf? node = some stack := by
      rw [stackOf?, chain]
      rfl
    rw [stackChain_of_stackOf? wellFormed.ordered belongs] at inChain
    rw [wellFormed.topLevelOf?_of_stackOf? belongs,
      ← wellFormed.topLevelOf?_of_mem (isStack_of_stackOf? belongs) inChain,
      wellFormed.topLevelOf?_of_outermost isStack outermost]
  · intro found
    exact (List.mem_filter.mp (List.mem_of_getLast? found)).1

/-- What is the top-level stack of a construct is a stack that stands in no other. -/
theorem outermost_of_topLevelOf? (found : tree.topLevelOf? node = some top) :
    tree.isStack top = true ∧ tree.parentStack? top = none := by
  obtain ⟨stack, above, chain⟩ : ∃ stack above, tree.stackChain node = stack :: above := by
    refine List.exists_cons_of_ne_nil fun empty => ?_
    rw [topLevelOf?, empty] at found
    cases found
  have belongs : tree.stackOf? node = some stack := by
    rw [stackOf?, chain]
    rfl
  rw [wellFormed.topLevelOf?_of_stackOf? belongs] at found
  obtain ⟨_, _, outermost⟩ := wellFormed.topLevelOf?_eq_some (isStack_of_stackOf? belongs) found
  exact outermost

/-- A nested stack has the top-level stack of its parent stack. -/
theorem topLevelOf?_of_nested (isStack : tree.isStack stack = true)
    (around : tree.parentStack? stack = some parent) :
    tree.topLevelOf? stack = tree.topLevelOf? parent := by
  obtain ⟨above, chain⟩ := wellFormed.head_stackChain (isStack_of_parentStack? around)
  rw [topLevelOf?, topLevelOf?, wellFormed.stackChain_of_nested isStack around, chain,
    List.getLast?_cons_cons]

end WellFormed

end StackSynth.Tree
