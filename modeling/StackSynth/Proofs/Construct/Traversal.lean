/-
This file says what the walks down the tree meet. The walk from the root meets every construct,
and the members of a stack are the constructs whose nearest stack strictly around them it is: the
walk goes down from the stack and stops at the stacks it meets, and a construct is reached that way
exactly if no other stack comes between.
-/

import StackSynth.Proofs.Construct.Growth

namespace StackSynth.Tree

variable {tree : Tree} {descends : NodeId → Bool} {start node parent stack : NodeId}

/-- A walk meets where it starts and what it meets from the children it enters. -/
theorem mem_below_iff :
    node ∈ tree.below descends start ↔
      node = start ∨
        (descends start = true ∧
          ∃ child ∈ tree.children start, node ∈ tree.below descends child) := by
  rw [below, List.mem_cons]
  refine or_congr Iff.rfl ?_
  by_cases enters : descends start = true
  · simp [enters]
  · simp [enters]

theorem start_mem_below (tree : Tree) (descends : NodeId → Bool) (start : NodeId) :
    start ∈ tree.below descends start := mem_below_iff.mpr (.inl rfl)

/-- A walk that enters a construct meets its children. -/
theorem child_mem_below {child : NodeId} :
    ∀ {start}, node ∈ tree.below descends start → descends node = true →
      child ∈ tree.children node → child ∈ tree.below descends start := by
  intro start
  induction start using below.induct tree with
  | case1 start inductionHypothesis =>
    intro met enters isChild
    rcases mem_below_iff.mp met with rfl | ⟨entersStart, between, isBetween, met⟩
    · exact mem_below_iff.mpr (.inr ⟨enters, child, isChild, start_mem_below tree descends child⟩)
    · have further := inductionHypothesis ⟨between, isBetween⟩ met enters isChild
      exact mem_below_iff.mpr (.inr ⟨entersStart, between, isBetween, further⟩)

/-- What a walk meets besides its start is the child of a construct that it enters. -/
theorem parent_of_mem_below :
    ∀ {start}, node ∈ tree.below descends start → node = start ∨
      ∃ parent ∈ tree.below descends start, descends parent = true ∧
        node ∈ tree.children parent := by
  intro start
  induction start using below.induct tree with
  | case1 start inductionHypothesis =>
    intro met
    rcases mem_below_iff.mp met with rfl | ⟨enters, child, isChild, met⟩
    · exact .inl rfl
    · refine .inr ?_
      rcases inductionHypothesis ⟨child, isChild⟩ met with
        rfl | ⟨parent, further, entersParent, last⟩
      · exact ⟨start, start_mem_below tree descends start, enters, isChild⟩
      · exact ⟨parent, mem_below_iff.mpr (.inr ⟨enters, child, isChild, further⟩), entersParent,
          last⟩

namespace WellFormed

variable (wellFormed : tree.WellFormed)
include wellFormed

theorem parent_of_lt (within : node < tree.size) (notRoot : node ≠ rootId) :
    ∃ parent, tree.parent? node = some parent ∧ parent < node := by
  obtain ⟨found, place⟩ := get?_of_lt within
  obtain ⟨parent, above, older⟩ := wellFormed.parented place notRoot
  refine ⟨parent, ?_, older⟩
  rw [parent?, place]
  exact above

/-- The walk from the root meets exactly the constructs of the tree. -/
theorem mem_preorder : node ∈ tree.preorder ↔ node < tree.size := by
  constructor
  · intro met
    rcases parent_of_mem_below met with rfl | ⟨parent, _, _, last⟩
    · exact lt_of_get? wellFormed.root
    · exact (mem_children last).1
  · induction node using Nat.strongRecOn with
    | _ node inductionHypothesis =>
      intro within
      by_cases atRoot : node = rootId
      · rw [atRoot]
        exact start_mem_below tree _ rootId
      · obtain ⟨parent, found, older⟩ := wellFormed.parent_of_lt within atRoot
        exact child_mem_below (inductionHypothesis parent older (Nat.lt_trans older within)) rfl
          ((mem_children_iff wellFormed.ordered).mpr found)

/-- The members of a stack are the constructs that have it as the nearest stack strictly around
them. -/
theorem mem_membersOf (isStack : tree.isStack stack = true) :
    node ∈ tree.membersOf stack ↔ tree.parentStack? node = some stack := by
  have ordered := wellFormed.ordered
  have atStack := wellFormed.stackOf?_stack isStack
  rw [membersOf, List.mem_filter]
  constructor
  · rintro ⟨met, apart⟩
    have notStart : node ≠ stack := by simpa using apart
    clear apart
    induction node using Nat.strongRecOn with
    | _ node inductionHypothesis =>
      rcases parent_of_mem_below met with same | ⟨parent, metParent, enters, last⟩
      · exact absurd same notStart
      · obtain ⟨_, older, found⟩ := mem_children last
        rw [parentStack?_of_parent ordered found]
        by_cases atStart : parent = stack
        · rw [atStart, atStack]
        · have noStack : tree.isStack parent = false := by simpa [atStart] using enters
          rw [stackOf?_of_not_isStack noStack]
          exact inductionHypothesis parent older metParent atStart
  · intro around
    have younger := parentStack?_lt ordered around
    refine ⟨?_, by simpa using Nat.ne_of_gt younger⟩
    clear younger
    induction node using Nat.strongRecOn with
    | _ node inductionHypothesis =>
      cases found : tree.parent? node with
      | none =>
        rw [parentStack?_of_orphan found] at around
        cases around
      | some parent =>
        have older := ordered.older found
        have child : node ∈ tree.children parent := (mem_children_iff ordered).mpr found
        rw [parentStack?_of_parent ordered found] at around
        by_cases atStart : parent = stack
        · subst atStart
          exact child_mem_below (start_mem_below tree _ parent) (by simp) child
        · have noStack : tree.isStack parent = false := by
            cases isStackParent : tree.isStack parent with
            | false => rfl
            | true =>
              rw [wellFormed.stackOf?_stack isStackParent] at around
              exact absurd (Option.some.inj around) atStart
          rw [stackOf?_of_not_isStack noStack] at around
          exact child_mem_below (inductionHypothesis parent older around) (by simp [noStack]) child

theorem mem_allStacks : stack ∈ tree.allStacks ↔ tree.isStack stack = true := by
  rw [allStacks, List.mem_filter, wellFormed.mem_preorder]
  refine and_iff_right_of_imp fun isStack => ?_
  obtain ⟨found, place, _⟩ := get?_of_isStack isStack
  exact lt_of_get? place

theorem mem_topLevelStacks :
    stack ∈ tree.topLevelStacks ↔ tree.isStack stack = true ∧ tree.isNested stack = false := by
  rw [topLevelStacks, List.mem_filter, wellFormed.mem_allStacks]
  simp

end WellFormed

end StackSynth.Tree
