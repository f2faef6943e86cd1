/-
This file walks the tree of constructs upwards. Every parent is older than its children, so the
constructs around a construct descend strictly, and the stacks among them form a chain: a stack is
followed by its parent stack, and the chain of the parent stack is the rest of its own. Whatever a
value passes through on its way between two stacks is read off these chains.
-/

import StackSynth.Construct.Tree

namespace StackSynth.Tree

/-- Parents are older than their children, and the root has none. -/
structure Ordered (tree : Tree) : Prop where
  rootless : tree.parent? rootId = none
  older : ∀ {node parent}, tree.parent? node = some parent → parent < node

variable {tree : Tree} {node parent stack other : NodeId}

/-! ### The constructs around a construct -/

theorem ancestors_root (tree : Tree) : tree.ancestors rootId = [] := by
  rw [ancestors, if_pos rfl]

theorem ancestors_of_parent (ordered : tree.Ordered) (found : tree.parent? node = some parent) :
    tree.ancestors node = node :: tree.ancestors parent := by
  have notRoot : node ≠ rootId := by
    rintro rfl
    rw [ordered.rootless] at found
    cases found
  rw [ancestors, if_neg notRoot, found]
  simp only [ordered.older found, if_true]

/-- The path of a construct is that of its parent and its id. -/
theorem pathComponents_of_parent (ordered : tree.Ordered) {found : Node}
    (place : tree.get? node = some found) (above : found.parent = some parent) :
    tree.pathComponents node = tree.pathComponents parent ++ [found.id] := by
  have isParent : tree.parent? node = some parent := by rw [parent?, place, Option.bind_some, above]
  rw [pathComponents, pathComponents, idsOf, idsOf, ancestors_of_parent ordered isParent,
    List.filterMap_cons, place]
  simp only [Option.map_some, List.reverse_cons]

theorem ancestors_of_orphan (notRoot : node ≠ rootId) (orphan : tree.parent? node = none) :
    tree.ancestors node = [node] := by
  rw [ancestors, if_neg notRoot, orphan]

/-- A construct other than the root comes first among those around it. -/
theorem head_ancestors (notRoot : node ≠ rootId) :
    ∃ above, tree.ancestors node = node :: above := by
  rw [ancestors, if_neg notRoot]
  exact ⟨_, rfl⟩

/-- The constructs around a construct are not younger than it. -/
theorem le_of_mem_ancestors (ordered : tree.Ordered) :
    ∀ {node}, other ∈ tree.ancestors node → other ≤ node := by
  intro node
  induction node using Nat.strongRecOn with
  | _ node inductionHypothesis =>
    intro member
    by_cases atRoot : node = rootId
    · rw [atRoot, ancestors_root] at member
      cases member
    · cases found : tree.parent? node with
      | none =>
        rw [ancestors_of_orphan atRoot found] at member
        exact Nat.le_of_eq (List.mem_singleton.mp member)
      | some parent =>
        rw [ancestors_of_parent ordered found] at member
        rcases List.mem_cons.mp member with same | above
        · exact Nat.le_of_eq same
        · have older := ordered.older found
          exact Nat.le_trans (inductionHypothesis parent older above) (Nat.le_of_lt older)

/-- No construct is around another one twice. -/
theorem nodup_ancestors (ordered : tree.Ordered) : ∀ node, (tree.ancestors node).Nodup := by
  intro node
  induction node using Nat.strongRecOn with
  | _ node inductionHypothesis =>
    by_cases atRoot : node = rootId
    · rw [atRoot, ancestors_root]
      exact List.nodup_nil
    · cases found : tree.parent? node with
      | none =>
        rw [ancestors_of_orphan atRoot found]
        exact List.pairwise_singleton _ node
      | some parent =>
        have older := ordered.older found
        rw [ancestors_of_parent ordered found]
        refine List.nodup_cons.mpr ⟨fun above => ?_, inductionHypothesis parent older⟩
        exact Nat.lt_irrefl _ (Nat.lt_of_le_of_lt (le_of_mem_ancestors ordered above) older)

theorem nodup_stackChain (ordered : tree.Ordered) (node : NodeId) :
    (tree.stackChain node).Nodup :=
  (nodup_ancestors ordered node).filter _

/-- From each construct around a construct on, the walk upwards is the walk from there. -/
theorem ancestors_split (ordered : tree.Ordered) :
    ∀ {node}, other ∈ tree.ancestors node →
      ∃ before, tree.ancestors node = before ++ tree.ancestors other ∧
        ∀ between ∈ before, other < between := by
  intro node
  induction node using Nat.strongRecOn with
  | _ node inductionHypothesis =>
    intro member
    by_cases same : other = node
    · exact ⟨[], by rw [same, List.nil_append], fun _ never => by cases never⟩
    · by_cases atRoot : node = rootId
      · rw [atRoot, ancestors_root] at member
        cases member
      · cases found : tree.parent? node with
        | none =>
          rw [ancestors_of_orphan atRoot found] at member
          exact absurd (List.mem_singleton.mp member) same
        | some parent =>
          rw [ancestors_of_parent ordered found] at member ⊢
          have above := (List.mem_cons.mp member).resolve_left same
          have older := ordered.older found
          obtain ⟨before, split, younger⟩ := inductionHypothesis parent older above
          refine ⟨node :: before, by rw [split, List.cons_append], fun between inBefore => ?_⟩
          rcases List.mem_cons.mp inBefore with atNode | later
          · exact atNode ▸ Nat.lt_of_le_of_lt (le_of_mem_ancestors ordered above) older
          · exact younger between later

/-! ### Stacks -/

/-- The root is no stack. -/
def RootIsNoStack (tree : Tree) : Prop := tree.isStack rootId = false

theorem stackOf?_mem (found : tree.stackOf? node = some stack) : stack ∈ tree.stackChain node :=
  List.mem_of_head? found

theorem isStack_of_mem_stackChain (member : stack ∈ tree.stackChain node) :
    tree.isStack stack = true :=
  (List.mem_filter.mp member).2

theorem isStack_of_stackOf? (found : tree.stackOf? node = some stack) :
    tree.isStack stack = true :=
  isStack_of_mem_stackChain (stackOf?_mem found)

theorem isStack_of_parentStack? (found : tree.parentStack? node = some stack) :
    tree.isStack stack = true :=
  (List.mem_filter.mp (List.mem_of_head? found)).2

/-- The stack strictly around a construct is the stack its parent belongs to. -/
theorem parentStack?_of_parent (ordered : tree.Ordered)
    (found : tree.parent? node = some parent) : tree.parentStack? node = tree.stackOf? parent := by
  rw [parentStack?, ancestors_of_parent ordered found, List.tail_cons, stackOf?, stackChain]

/-- Without a parent there is no stack around. -/
theorem parentStack?_of_orphan (orphan : tree.parent? node = none) :
    tree.parentStack? node = none := by
  by_cases atRoot : node = rootId
  · rw [parentStack?, atRoot, ancestors_root]
    rfl
  · rw [parentStack?, ancestors_of_orphan atRoot orphan]
    rfl

/-- The parent stack of a construct is older than it. -/
theorem parentStack?_lt (ordered : tree.Ordered) (found : tree.parentStack? node = some stack) :
    stack < node := by
  cases parentFound : tree.parent? node with
  | none =>
    rw [parentStack?_of_orphan parentFound] at found
    cases found
  | some parent =>
    rw [parentStack?_of_parent ordered parentFound] at found
    have above := (List.mem_filter.mp (stackOf?_mem found)).1
    exact Nat.lt_of_le_of_lt (le_of_mem_ancestors ordered above) (ordered.older parentFound)

/-- A construct that is no stack belongs to the stack around it. -/
theorem stackOf?_of_not_isStack (noStack : tree.isStack node = false) :
    tree.stackOf? node = tree.parentStack? node := by
  by_cases atRoot : node = rootId
  · rw [stackOf?, stackChain, parentStack?, atRoot, ancestors_root]
    rfl
  · obtain ⟨above, walk⟩ : ∃ above, tree.ancestors node = node :: above := head_ancestors atRoot
    rw [stackOf?, stackChain, parentStack?, walk, List.tail_cons,
      List.filter_cons_of_neg (by simp [noStack])]

/-- The chain of a construct is the chain of the stack it belongs to. -/
theorem stackChain_of_stackOf? (ordered : tree.Ordered) (found : tree.stackOf? node = some stack) :
    tree.stackChain node = tree.stackChain stack := by
  obtain ⟨above, chain⟩ : ∃ above, tree.stackChain node = stack :: above := by
    cases chain : tree.stackChain node with
    | nil =>
      rw [stackOf?, chain] at found
      cases found
    | cons head above =>
      rw [stackOf?, chain] at found
      cases found
      exact ⟨above, rfl⟩
  obtain ⟨before, split, younger⟩ :=
    ancestors_split ordered (List.mem_filter.mp (stackOf?_mem found)).1
  have splitChain : tree.stackChain node = before.filter tree.isStack ++ tree.stackChain stack := by
    rw [stackChain, split, List.filter_append, stackChain]
  cases early : before.filter tree.isStack with
  | nil => rw [splitChain, early, List.nil_append]
  | cons first rest =>
    -- the head of the chain would be younger than itself
    have sameHead : first = stack := by
      rw [chain, early, List.cons_append] at splitChain
      exact (List.cons.inj splitChain).1.symm
    have inBefore : first ∈ before := (List.mem_filter.mp (early ▸ List.mem_cons_self)).1
    exact absurd (sameHead ▸ younger first inBefore) (Nat.lt_irrefl stack)

/-- A stack comes first in its chain, and its parent stack's chain follows. -/
theorem stackChain_of_isStack (ordered : tree.Ordered) (noRoot : tree.RootIsNoStack)
    (isStack : tree.isStack stack = true) :
    tree.stackChain stack =
      stack :: match tree.parentStack? stack with
        | some parent => tree.stackChain parent
        | none => [] := by
  have notRoot : stack ≠ rootId := by
    rintro rfl
    rw [noRoot] at isStack
    cases isStack
  cases parentFound : tree.parent? stack with
  | none =>
    rw [parentStack?_of_orphan parentFound, stackChain, ancestors_of_orphan notRoot parentFound,
      List.filter_cons_of_pos isStack, List.filter_nil]
  | some parent =>
    rw [parentStack?_of_parent ordered parentFound, stackChain,
      ancestors_of_parent ordered parentFound, List.filter_cons_of_pos isStack]
    cases around : tree.stackOf? parent with
    | none =>
      rw [stackOf?, List.head?_eq_none_iff] at around
      rw [← stackChain, around]
    | some parentStack =>
      rw [← stackChain, stackChain_of_stackOf? ordered around]

theorem stackOf?_of_isStack (ordered : tree.Ordered) (noRoot : tree.RootIsNoStack)
    (isStack : tree.isStack stack = true) : tree.stackOf? stack = some stack := by
  rw [stackOf?, stackChain_of_isStack ordered noRoot isStack]
  rfl

end StackSynth.Tree
