/-
This file says what the tree shows of a construct that was added to it. The new construct comes
behind all others, so it is the last of the children of its parent and changes no other list of
children; what is asked about an older construct has the answer it had before.
-/

import StackSynth.Proofs.Construct.Preorder

namespace StackSynth.Tree

variable {tree grown : Tree} {scope node : NodeId} {id : String} {construct : Construct}

/-- A new construct is the last child of its parent, and nobody else's. -/
theorem children_withNew (older : scope < tree.size) (node : NodeId) :
    (tree.withNew scope id construct).children node =
      tree.children node ++ if node = scope then [tree.size] else [] := by
  have alike := alikeBelow_withNew tree scope id construct
  rw [children, size_withNew, List.range_succ, List.filter_append, children]
  congr 1
  · refine List.filter_congr fun child member => ?_
    rw [alike.parent? (List.mem_range.mp member)]
  · rw [List.filter_singleton, parent?_withNew]
    by_cases here : node = scope
    · subst here
      simp [older]
    · simp [here, Ne.symm here]

/-! ### Older constructs -/

/-- A new construct that is no stack leaves the stacks as they are. -/
theorem isStack_withNew (noStack : construct.isStack = false) (node : NodeId) :
    (tree.withNew scope id construct).isStack node = tree.isStack node := by
  rw [isStack, isStack, get?_withNew]
  by_cases atNew : node = tree.size
  · rw [if_pos atNew, atNew, get?_size]
    exact noStack
  · rw [if_neg atNew]

theorem isNested_withNew (noStack : construct.isStack = false) (node : NodeId) :
    (tree.withNew scope id construct).isNested node = tree.isNested node := by
  rw [isNested, isNested, get?_withNew]
  by_cases atNew : node = tree.size
  · rw [if_pos atNew, atNew, get?_size]
    cases construct <;> first | rfl | cases noStack
  · rw [if_neg atNew]

section Names

variable (ordered : tree.Ordered) (within : node < tree.size)
include ordered within

theorem path_withNew : (tree.withNew scope id construct).path node = tree.path node := by
  rw [path, path, (alikeBelow_withNew tree scope id construct).pathComponents ordered within]

theorem uniqueId_withNew :
    (tree.withNew scope id construct).uniqueId node = tree.uniqueId node := by
  rw [uniqueId, uniqueId,
    (alikeBelow_withNew tree scope id construct).pathComponents ordered within]

theorem componentsBelow_withNew (ancestor : NodeId) :
    (tree.withNew scope id construct).componentsBelow ancestor node =
      tree.componentsBelow ancestor node := by
  have alike := alikeBelow_withNew tree scope id construct
  rw [componentsBelow, componentsBelow, idsOf, idsOf, ← alike.ancestors ordered within]
  refine congrArg List.reverse (List.filterMap_congr fun above member => ?_)
  have isAbove := (List.takeWhile_sublist _).subset member
  exact (alike.ids (Nat.lt_of_le_of_lt (le_of_mem_ancestors ordered isAbove) within)).symm

theorem logicalId_withNew :
    (tree.withNew scope id construct).logicalId node = tree.logicalId node := by
  have sameKind : (tree.withNew scope id construct).kind node = tree.kind node := by
    rw [kind, kind, get?_withNew_of_lt within]
  rw [logicalId, logicalId,
    ← (alikeBelow_withNew tree scope id construct).parentStack? ordered within, sameKind,
    path_withNew ordered within]
  simp only [componentsBelow_withNew ordered within]

theorem embeddingPath_withNew :
    (tree.withNew scope id construct).embeddingPath node = tree.embeddingPath node := by
  rw [embeddingPath, embeddingPath, find, find, get?_withNew_of_lt within]
  cases place : tree.get? node with
  | none => rfl
  | some found =>
    cases above : found.parent with
    | none => simp only [bind, Except.bind, above]
    | some parent =>
      have isParent : tree.parent? node = some parent := by
        rw [parent?, place, Option.bind_some, above]
      have parentWithin := Nat.lt_trans (ordered.older isParent) within
      simp only [bind, Except.bind, above,
        (alikeBelow_withNew tree scope id construct).pathComponents ordered parentWithin]

theorem embeddingId_withNew :
    (tree.withNew scope id construct).embeddingId node = tree.embeddingId node := by
  rw [embeddingId, embeddingId, find, find, get?_withNew_of_lt within,
    ← (alikeBelow_withNew tree scope id construct).parentStack? ordered within,
    path_withNew ordered within]
  cases place : tree.get? node with
  | none => rfl
  | some found =>
    cases above : found.parent with
    | none => simp only [bind, Except.bind, above]
    | some parent =>
      have isParent : tree.parent? node = some parent := by
        rw [parent?, place, Option.bind_some, above]
      have parentWithin := Nat.lt_trans (ordered.older isParent) within
      cases tree.parentStack? node <;>
        simp only [bind, Except.bind, above, componentsBelow_withNew ordered parentWithin]

theorem environment_withNew :
    (tree.withNew scope id construct).environment node = tree.environment node := by
  have sameKind : (tree.withNew scope id construct).kind node = tree.kind node := by
    rw [kind, kind, get?_withNew_of_lt within]
  rw [environment, environment,
    ← (alikeBelow_withNew tree scope id construct).topLevelOf? ordered within, sameKind,
    path_withNew ordered within]
  cases found : tree.topLevelOf? node with
  | none => rfl
  | some top =>
    have inChain := (List.mem_filter.mp (List.mem_of_getLast? found)).1
    have topWithin := Nat.lt_of_le_of_lt (le_of_mem_ancestors ordered inChain) within
    simp only [get?_withNew_of_lt topWithin]

end Names

/-! ### Walks -/

/-- A new construct has no children. -/
theorem below_new (older : scope < tree.size) (descends : NodeId → Bool) :
    (tree.withNew scope id construct).below descends tree.size = [tree.size] := by
  have childless : (tree.withNew scope id construct).children tree.size = [] := by
    rw [children_withNew older, if_neg (Nat.ne_of_gt older), List.append_nil]
    refine List.eq_nil_iff_forall_not_mem.mpr fun child isChild => ?_
    exact Nat.lt_asymm (mem_children isChild).1 (mem_children isChild).2.1
  cases enters : descends tree.size with
  | true => rw [below_of_descends enters, childless, List.flatMap_nil]
  | false => exact below_of_not_descends enters

/-- A walk meets what it met before, and perhaps the new construct. -/
theorem filter_below_withNew (older : scope < tree.size) (descends : NodeId → Bool) :
    ∀ {start}, start < tree.size →
      ((tree.withNew scope id construct).below descends start).filter (· ≠ tree.size) =
        tree.below descends start := by
  intro start
  induction start using below.induct tree with
  | case1 start inductionHypothesis =>
    intro within
    have kept : ∀ rest : List NodeId, (start :: rest).filter (· ≠ tree.size) =
        start :: rest.filter (· ≠ tree.size) :=
      fun _ => List.filter_cons_of_pos (decide_eq_true (Nat.ne_of_lt within))
    cases enters : descends start with
    | false =>
      rw [below_of_not_descends enters, below_of_not_descends enters, kept, List.filter_nil]
    | true =>
      rw [below_of_descends enters, below_of_descends enters, kept,
        children_withNew older, List.flatMap_append, List.filter_append, List.filter_flatMap]
      have ofOld : (tree.children start).flatMap (fun child =>
          ((tree.withNew scope id construct).below descends child).filter (· ≠ tree.size)) =
          (tree.children start).flatMap (tree.below descends) := by
        refine List.flatMap_congr fun child isChild => ?_
        exact inductionHypothesis ⟨child, isChild⟩ (mem_children isChild).1
      have ofNew : ((if start = scope then [tree.size] else []).flatMap
          ((tree.withNew scope id construct).below descends)).filter (· ≠ tree.size) = [] := by
        split
        · rw [List.flatMap_singleton, below_new older, List.filter_cons_of_neg (by simp),
            List.filter_nil]
        · rfl
      rw [ofOld, ofNew, List.append_nil]

section Lists

variable (wellFormed : tree.WellFormed) (admits : tree.Admits scope id construct)
include wellFormed admits

/-- The walk through all constructs passes the older ones as before. -/
theorem preorder_withNew :
    (tree.withNew scope id construct).preorder.filter (· ≠ tree.size) = tree.preorder :=
  filter_below_withNew admits.scope _ (lt_of_get? wellFormed.root)

/-- What is looked for among all constructs, and is not found in the new one, is found as
before. -/
theorem filter_preorder_withNew {looksFor lookedFor : NodeId → Bool}
    (notNew : looksFor tree.size = false)
    (same : ∀ node < tree.size, looksFor node = lookedFor node) :
    (tree.withNew scope id construct).preorder.filter looksFor =
      tree.preorder.filter lookedFor := by
  rw [← preorder_withNew wellFormed admits, List.filter_filter]
  refine List.filter_congr fun node member => ?_
  have within := (wellFormed.withNew admits).mem_preorder.mp member
  rw [size_withNew] at within
  by_cases atNew : node = tree.size
  · simp [atNew, notNew]
  · rw [same node (Nat.lt_of_le_of_ne (Nat.le_of_lt_succ within) atNew)]
    simp [atNew]

theorem allStacks_withNew (noStack : construct.isStack = false) :
    (tree.withNew scope id construct).allStacks = tree.allStacks := by
  refine filter_preorder_withNew wellFormed admits ?_ fun node _ => isStack_withNew noStack node
  rw [isStack_withNew noStack, isStack, get?_size]

theorem topLevelStacks_withNew (noStack : construct.isStack = false) :
    (tree.withNew scope id construct).topLevelStacks = tree.topLevelStacks := by
  rw [topLevelStacks, topLevelStacks, allStacks_withNew wellFormed admits noStack]
  exact List.filter_congr fun stack _ => by rw [isNested_withNew noStack]

/-- A new construct is a member of no stack but the one it was added in. -/
theorem membersOf_withNew (noStack : construct.isStack = false) {stack : NodeId}
    (isStack : tree.isStack stack = true) (elsewhere : tree.stackOf? scope ≠ some stack) :
    (tree.withNew scope id construct).membersOf stack = tree.membersOf stack := by
  have isStackToo : (tree.withNew scope id construct).isStack stack = true :=
    (isStack_withNew noStack stack).trans isStack
  rw [(wellFormed.withNew admits).membersOf_eq isStackToo, wellFormed.membersOf_eq isStack]
  refine filter_preorder_withNew wellFormed admits ?_ fun node within => ?_
  · have around : (tree.withNew scope id construct).parentStack? tree.size = tree.stackOf? scope :=
      parentStack?_withNew wellFormed admits.scope
    rw [around]
    exact decide_eq_false elsewhere
  · rw [← (alikeBelow_withNew tree scope id construct).parentStack? wellFormed.ordered within]

end Lists

end StackSynth.Tree
