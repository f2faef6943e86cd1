/-
This file states what walks through the tree enumerate. The walk through everything comes to its
end with every construct once, those below a construct in one piece behind it and its children in
their order. The walk for the members of a stack takes out of this order what has the stack as the
nearest one strictly around it; so no two stacks share a member, and what lies in a stack at all is
a member of one.
-/

import Mathlib.Logic.Relation
import StackSynth.Proofs.Construct.Arena

namespace StackSynth.Tree

open Relation

variable {tree : Tree} {node other above start parent stack : NodeId} {descends : NodeId → Bool}

/-- A construct lies strictly below another one: that is its parent, or the parent of its parent,
and so on. -/
def LiesBelow (tree : Tree) (node above : NodeId) : Prop :=
  TransGen (fun child parent => tree.parent? child = some parent) node above

/-- The walks of a tree list it as they should. -/
structure Enumerated (tree : Tree) : Prop where
  stored : tree.Stored
  /-- The walk through all that is stored comes to its end. -/
  ends : tree.arena.WalksTo (fun _ => true) rootId tree.preorder
  /-- So does the walk that stops at other stacks, which finds the members of a stack. -/
  membersEnd : ∀ stack, ∃ met,
    tree.arena.WalksTo (fun node => node = stack || !tree.isStack node) stack met ∧
      tree.membersOf stack = met.filter (· ≠ stack)
  /-- Every construct is listed once, and nothing else is listed. -/
  once : ∀ node, tree.preorder.count node = if node < tree.size then 1 else 0
  parentsFirst : ∀ {node above}, tree.LiesBelow node above →
    tree.preorder.idxOf above < tree.preorder.idxOf node
  /-- What lies below a construct is listed in one piece right behind it. -/
  together : ∀ node < tree.size, ∃ before inside after,
    tree.preorder = before ++ node :: (inside ++ after) ∧
      ∀ other, other ∈ inside ↔ tree.LiesBelow other node
  /-- The stored children of a construct are listed in the order in which they are stored. -/
  siblings : ∀ node, (tree.arena.children node).Sublist tree.preorder
  /-- The members of a stack are what has it as the nearest stack strictly around it, in the order
  of the whole tree. -/
  members : ∀ stack, tree.isStack stack = true → tree.membersOf stack =
    tree.preorder.filter fun node => node ≠ stack && tree.parentStack? node = some stack
  /-- No construct is a member of two stacks. -/
  apart : ∀ {first second}, tree.isStack first = true → tree.isStack second = true →
    first ≠ second → (tree.membersOf first).Disjoint (tree.membersOf second)
  /-- What lies below a stack is a member of one, and nothing else is. -/
  covered : ∀ node, (∃ stack, tree.isStack stack = true ∧ node ∈ tree.membersOf stack) ↔
    ∃ stack, tree.isStack stack = true ∧ tree.LiesBelow node stack

/-! ### What lies below a construct -/

section

variable (ordered : tree.Ordered)
include ordered

theorem LiesBelow.lt (below : tree.LiesBelow node above) : above < node := by
  induction below with
  | single found => exact ordered.older found
  | tail _ found older => exact Nat.lt_trans (ordered.older found) older

/-- The walk that enters everything meets where it starts and what lies below. -/
theorem mem_below_iff_liesBelow :
    node ∈ tree.below (fun _ => true) start ↔ node = start ∨ tree.LiesBelow node start := by
  constructor
  · induction start using below.induct tree with
    | case1 start inductionHypothesis =>
      intro met
      rcases mem_below_iff.mp met with same | ⟨_, child, isChild, met⟩
      · exact .inl same
      · have found := (mem_children isChild).2.2
        rcases inductionHypothesis ⟨child, isChild⟩ met with rfl | below
        · exact .inr (.single found)
        · exact .inr (.tail below found)
  · rintro (rfl | below)
    · exact start_mem_below tree _ _
    · induction below using TransGen.head_induction_on with
      | single found =>
        exact child_mem_below (start_mem_below tree _ start) rfl
          ((mem_children_iff ordered).mpr found)
      | head found _ met => exact child_mem_below met rfl ((mem_children_iff ordered).mpr found)

/-- What lies strictly around a construct, the root excepted. -/
theorem mem_tail_ancestors (notRoot : above ≠ rootId) :
    above ∈ (tree.ancestors node).tail ↔ tree.LiesBelow node above := by
  constructor
  · induction node using Nat.strongRecOn with
    | _ node inductionHypothesis =>
      intro around
      cases found : tree.parent? node with
      | none =>
        by_cases atRoot : node = rootId
        · rw [atRoot, ancestors_root] at around
          cases around
        · rw [ancestors_of_orphan atRoot found] at around
          cases around
      | some parent =>
        rw [ancestors_of_parent ordered found, List.tail_cons] at around
        by_cases here : above = parent
        · exact .single (here ▸ found)
        · by_cases atRoot : parent = rootId
          · rw [atRoot, ancestors_root] at around
            cases around
          · obtain ⟨further, split⟩ := @head_ancestors tree _ atRoot
            have beyond : above ∈ (tree.ancestors parent).tail := by
              rw [split] at around ⊢
              exact (List.mem_cons.mp around).resolve_left here
            exact .head found (inductionHypothesis parent (ordered.older found) beyond)
  · intro below
    induction below using TransGen.head_induction_on with
    | single found =>
      rw [ancestors_of_parent ordered found, List.tail_cons]
      exact mem_ancestors_self tree notRoot
    | head found _ around =>
      rw [ancestors_of_parent ordered found, List.tail_cons]
      exact List.mem_of_mem_tail around

end

/-- What a walk meets from a construct on stands in one piece in the walk. -/
theorem isInfix_below : node ∈ tree.below descends start →
    tree.below descends node <:+: tree.below descends start := by
  induction start using below.induct tree with
  | case1 start inductionHypothesis =>
    intro met
    rcases mem_below_iff.mp met with rfl | ⟨enters, child, isChild, met⟩
    · exact List.infix_rfl
    · have within := inductionHypothesis ⟨child, isChild⟩ met
      obtain ⟨before, after, split⟩ := List.append_of_mem isChild
      rw [below_of_descends enters, split, List.flatMap_append, List.flatMap_cons]
      exact within.trans ⟨start :: before.flatMap (tree.below descends),
        after.flatMap (tree.below descends), by simp⟩

/-- A walk meets children in their order. -/
theorem children_sublist_below (enters : descends node = true) :
    (tree.children node).Sublist (tree.below descends node) := by
  have each : ∀ children : List NodeId,
      children.Sublist (children.flatMap (tree.below descends)) := by
    intro children
    induction children with
    | nil => exact List.nil_sublist _
    | cons child rest inductionHypothesis =>
      rw [List.flatMap_cons]
      have first : [child].Sublist (tree.below descends child) :=
        List.singleton_sublist.mpr (start_mem_below tree _ child)
      exact first.append inductionHypothesis
  rw [below_of_descends enters]
  exact (each _).cons _

/-! ### Every application is enumerated -/

namespace WellFormed

variable (wellFormed : tree.WellFormed)
include wellFormed

/-- What lies below a construct stands in one piece behind it. -/
theorem preorder_split (within : node < tree.size) : ∃ before inside after,
    tree.preorder = before ++ node :: (inside ++ after) ∧
      ∀ other, other ∈ inside ↔ tree.LiesBelow other node := by
  have ordered := wellFormed.ordered
  obtain ⟨before, after, split⟩ := isInfix_below (wellFormed.mem_preorder.mpr within)
  rw [below_of_descends rfl] at split
  refine ⟨before, (tree.children node).flatMap (tree.below fun _ => true), after, ?_, ?_⟩
  · rw [preorder, ← split]
    simp
  · intro other
    have met := @mem_below_iff_liesBelow tree other node ordered
    rw [below_of_descends rfl, List.mem_cons] at met
    constructor
    · intro inside
      refine (met.mp (.inr inside)).resolve_left ?_
      -- the walk meets nothing twice, its start neither
      rintro rfl
      have once := nodup_below ordered (fun _ => true) other
      rw [below_of_descends rfl] at once
      exact (List.nodup_cons.mp once).1 inside
    · intro below
      exact (met.mpr (.inr below)).resolve_left (Nat.ne_of_gt (below.lt ordered))

theorem idxOf_lt_of_liesBelow (below : tree.LiesBelow node above) :
    tree.preorder.idxOf above < tree.preorder.idxOf node := by
  have ordered := wellFormed.ordered
  have older := below.lt ordered
  obtain ⟨parent, found, _⟩ := TransGen.head'_iff.mp below
  have within := (mem_children ((mem_children_iff ordered).mpr found)).1
  obtain ⟨before, inside, after, split, isInside⟩ :=
    wellFormed.preorder_split (Nat.lt_trans older within)
  have behind := (isInside node).mpr below
  have once := @nodup_preorder tree ordered
  rw [split] at once ⊢
  obtain ⟨_, _, apart⟩ := List.nodup_append.mp once
  rw [List.idxOf_append_of_notMem fun early => apart _ early _ List.mem_cons_self rfl,
    List.idxOf_append_of_notMem fun early => apart _ early _ (by simp [behind]) rfl,
    List.idxOf_cons_self, List.idxOf_cons_ne _ (Nat.ne_of_lt older)]
  exact Nat.add_lt_add_left (Nat.succ_pos _) _

theorem parentStack?_iff_liesBelow : (∃ stack, tree.parentStack? node = some stack) ↔
    ∃ stack, tree.isStack stack = true ∧ tree.LiesBelow node stack := by
  have around : ∀ stack, tree.isStack stack = true →
      (stack ∈ (tree.ancestors node).tail ↔ tree.LiesBelow node stack) := by
    refine fun stack isStack => mem_tail_ancestors wellFormed.ordered ?_
    rintro rfl
    exact Bool.false_ne_true (wellFormed.rootIsNoStack.symm.trans isStack)
  constructor
  · rintro ⟨stack, nearest⟩
    obtain ⟨member, isStack⟩ := List.mem_filter.mp (List.mem_of_head? nearest)
    exact ⟨stack, isStack, (around stack isStack).mp member⟩
  · rintro ⟨stack, isStack, below⟩
    have member : stack ∈ (tree.ancestors node).tail.filter tree.isStack :=
      List.mem_filter.mpr ⟨(around stack isStack).mpr below, isStack⟩
    exact Option.isSome_iff_exists.mp (List.isSome_head?.mpr (List.ne_nil_of_mem member))

theorem enumerated (stored : tree.Stored) : tree.Enumerated where
  stored := stored
  ends := walksTo_below tree _ rootId
  membersEnd stack := ⟨_, walksTo_below tree _ stack, rfl⟩
  once node := by
    rw [(nodup_preorder wellFormed.ordered).count]
    simp only [wellFormed.mem_preorder]
  parentsFirst := wellFormed.idxOf_lt_of_liesBelow
  together _ := wellFormed.preorder_split
  siblings node := by
    rw [children_arena]
    cases place : tree.get? node with
    | none =>
      rw [children_of_get?_none place]
      exact List.nil_sublist _
    | some found =>
      have met := wellFormed.mem_preorder.mpr (lt_of_get? place)
      exact (children_sublist_below rfl).trans (isInfix_below met).sublist
  members stack isStack := by
    rw [wellFormed.membersOf_eq isStack]
    refine List.filter_congr fun node _ => ?_
    by_cases isMember : tree.parentStack? node = some stack
    · have apart := Nat.ne_of_gt (parentStack?_lt wellFormed.ordered isMember)
      simp [isMember, apart]
    · simp [isMember]
  apart := by
    intro first second isStack isStackToo differ node isMember isMemberToo
    rw [wellFormed.mem_membersOf isStack] at isMember
    rw [wellFormed.mem_membersOf isStackToo, isMember] at isMemberToo
    exact differ (Option.some.inj isMemberToo)
  covered node := by
    rw [← wellFormed.parentStack?_iff_liesBelow]
    constructor
    · rintro ⟨stack, isStack, isMember⟩
      exact ⟨stack, (wellFormed.mem_membersOf isStack).mp isMember⟩
    · rintro ⟨stack, around⟩
      have isStack := isStack_of_parentStack? around
      exact ⟨stack, isStack, (wellFormed.mem_membersOf isStack).mpr around⟩

end WellFormed

/-- Walks through the tree of an application enumerate it, whatever was tried with it. -/
theorem enumerated_assembled (history : List (Asset.Bundler × BuildStep)) :
    (Application.assembled history).tree.Enumerated :=
  (Application.kept_assembled history).wellFormed.enumerated (stored_assembled history)

end StackSynth.Tree
