/-
This file finds the members of a stack in the order of the whole tree. The walk for the members
starts at the stack and stops at the stacks it meets, and the walk from the root enters everything;
but what it meets outside of the stack or inside of another stack below has another stack around
it. So the members of a stack are what the walk from the root meets with that stack around it, in
the order in which it is met.
-/

import Mathlib.Data.List.Nodup
import StackSynth.Proofs.Construct.Traversal

namespace StackSynth.Tree

variable {tree : Tree} {descends : NodeId → Bool} {start node child parent stack above : NodeId}

/-! ### One walk within another -/

theorem below_of_descends (enters : descends start = true) :
    tree.below descends start =
      start :: (tree.children start).flatMap (tree.below descends) := by
  rw [below, if_pos enters, List.flatMap_subtype (g := tree.below descends)
    (fun _ _ => rfl), List.unattach_attach]

theorem below_of_not_descends (stops : descends start = false) :
    tree.below descends start = [start] := by
  rw [below, if_neg (by simp [stops])]

theorem nodup_children (tree : Tree) (node : NodeId) : (tree.children node).Nodup :=
  List.nodup_range.filter _

/-- A list all of whose images but one are empty is mapped to that one. -/
theorem flatMap_eq_of_only {α β : Type} {image : α → List β} {items : List α} {only : α}
    (nodup : items.Nodup) (member : only ∈ items)
    (others : ∀ other ∈ items, other ≠ only → image other = []) :
    items.flatMap image = image only := by
  obtain ⟨before, after, rfl⟩ := List.append_of_mem member
  obtain ⟨_, nodupAfter, apart⟩ := List.nodup_append.mp nodup
  have emptyBefore : before.flatMap image = [] := by
    refine List.flatMap_eq_nil_iff.mpr fun other isBefore => ?_
    exact others other (List.mem_append_left _ isBefore)
      (apart other isBefore only List.mem_cons_self)
  have emptyAfter : after.flatMap image = [] := by
    refine List.flatMap_eq_nil_iff.mpr fun other isAfter => ?_
    refine others other (List.mem_append_right _ (List.mem_cons_of_mem _ isAfter)) ?_
    rintro rfl
    exact (List.nodup_cons.mp nodupAfter).1 isAfter
  rw [List.flatMap_append, List.flatMap_cons, emptyBefore, emptyAfter, List.nil_append,
    List.append_nil]

/-! ### What lies around what a walk meets -/

theorem mem_ancestors_self (tree : Tree) (notRoot : node ≠ rootId) :
    node ∈ tree.ancestors node := by
  obtain ⟨rest, walk⟩ := @head_ancestors tree _ notRoot
  rw [walk]
  exact List.mem_cons_self

section

variable (ordered : tree.Ordered)
include ordered

theorem ne_root_of_parent? (found : tree.parent? node = some parent) : node ≠ rootId := by
  rintro rfl
  rw [ordered.rootless] at found
  cases found

/-- A walk meets only constructs around which its start lies. -/
theorem mem_ancestors_of_mem_below (notRoot : start ≠ rootId) :
    node ∈ tree.below descends start → start ∈ tree.ancestors node := by
  induction start using below.induct tree with
  | case1 start inductionHypothesis =>
    intro met
    rcases mem_below_iff.mp met with rfl | ⟨_, child, isChild, met⟩
    · exact mem_ancestors_self tree notRoot
    · obtain ⟨_, _, found⟩ := mem_children isChild
      have around := inductionHypothesis ⟨child, isChild⟩ (ne_root_of_parent? ordered found) met
      obtain ⟨before, split, _⟩ := ancestors_split ordered around
      rw [split, ancestors_of_parent ordered found]
      exact List.mem_append_right _ (List.mem_cons_of_mem _ (mem_ancestors_self tree notRoot))

theorem mem_ancestors_trans (inner : above ∈ tree.ancestors node)
    (outer : start ∈ tree.ancestors above) : start ∈ tree.ancestors node := by
  obtain ⟨before, split, _⟩ := ancestors_split ordered inner
  rw [split]
  exact List.mem_append_right _ outer

/-- Of two siblings only one lies around a construct. -/
theorem sibling_unique {other : NodeId} (found : tree.parent? node = some parent)
    (foundOther : tree.parent? other = some parent) (around : node ∈ tree.ancestors child)
    (aroundOther : other ∈ tree.ancestors child) : node = other := by
  have notOlder : ∀ {first second : NodeId}, tree.parent? first = some parent →
      tree.parent? second = some parent → first ∈ tree.ancestors child →
      second ∈ tree.ancestors child → first ≤ second := by
    intro first second foundFirst foundSecond aroundFirst aroundSecond
    obtain ⟨before, split, younger⟩ := ancestors_split ordered aroundFirst
    rw [split] at aroundSecond
    rcases List.mem_append.mp aroundSecond with inBefore | further
    · exact Nat.le_of_lt (younger second inBefore)
    · rw [ancestors_of_parent ordered foundFirst] at further
      rcases List.mem_cons.mp further with rfl | aroundParent
      · exact Nat.le_refl _
      · -- a sibling is younger than the parent and does not lie around it
        exact absurd (le_of_mem_ancestors ordered aroundParent)
          (Nat.not_le_of_lt (ordered.older foundSecond))
  exact Nat.le_antisymm (notOlder found foundOther around aroundOther)
    (notOlder foundOther found aroundOther around)

/-- A walk meets nothing twice. -/
theorem nodup_below (descends : NodeId → Bool) (start : NodeId) :
    (tree.below descends start).Nodup := by
  have aroundMet : ∀ {start child node}, child ∈ tree.children start →
      node ∈ tree.below descends child → child ∈ tree.ancestors node := fun isChild met =>
    mem_ancestors_of_mem_below ordered (ne_root_of_parent? ordered (mem_children isChild).2.2) met
  induction start using below.induct tree with
  | case1 start inductionHypothesis =>
    cases enters : descends start with
    | false =>
      rw [below_of_not_descends enters]
      exact List.nodup_singleton start
    | true =>
      rw [below_of_descends enters]
      refine List.nodup_cons.mpr ⟨fun again => ?_, List.nodup_flatMap.mpr ⟨?_, ?_⟩⟩
      · obtain ⟨child, isChild, met⟩ := List.mem_flatMap.mp again
        have younger := (mem_children isChild).2.1
        exact Nat.not_le_of_lt younger (le_of_mem_ancestors ordered (aroundMet isChild met))
      · exact fun child isChild => inductionHypothesis ⟨child, isChild⟩
      · refine (nodup_children tree start).imp_of_mem ?_
        intro child other isChild isOther apart node met metOther
        exact apart (sibling_unique ordered (mem_children isChild).2.2 (mem_children isOther).2.2
          (aroundMet isChild met) (aroundMet isOther metOther))

theorem nodup_preorder : tree.preorder.Nodup := nodup_below ordered _ _

end

namespace WellFormed

variable (wellFormed : tree.WellFormed)
include wellFormed

/-- The stack that a construct belongs to is not older than any stack around it. -/
theorem le_stackOf? (around : above ∈ tree.ancestors node) (isStack : tree.isStack above = true)
    (belongs : tree.stackOf? node = some stack) : above ≤ stack := by
  obtain ⟨before, split, younger⟩ := ancestors_split wellFormed.ordered around
  have chain : tree.stackChain node = before.filter tree.isStack ++ tree.stackChain above := by
    rw [stackChain, split, List.filter_append, stackChain]
  have atAbove : (tree.stackChain above).head? = some above := wellFormed.stackOf?_stack isStack
  rw [stackOf?, chain] at belongs
  cases between : before.filter tree.isStack with
  | nil =>
    rw [between, List.nil_append, atAbove] at belongs
    exact Nat.le_of_eq (Option.some.inj belongs)
  | cons first rest =>
    have isBetween : first ∈ before.filter tree.isStack := between ▸ List.mem_cons_self
    rw [between, List.cons_append, List.head?_cons] at belongs
    exact Option.some.inj belongs ▸ Nat.le_of_lt (younger first (List.mem_filter.mp isBetween).1)

/-! ### The members of a stack in the order of the tree -/

/-- Strictly below a stack nothing has an older stack as the nearest one around it. -/
theorem parentStack?_ne_of_inside (isStack : tree.isStack child = true) (older : stack < child)
    (met : node ∈ tree.below descends child) (further : node ≠ child) :
    tree.parentStack? node ≠ some stack := by
  intro around
  have ordered := wellFormed.ordered
  have notRoot : child ≠ rootId := Nat.ne_of_gt (Nat.lt_of_le_of_lt (Nat.zero_le _) older)
  rcases parent_of_mem_below met with same | ⟨parent, metParent, _, last⟩
  · exact further same
  · rw [parentStack?_of_parent ordered (mem_children last).2.2] at around
    have notOlder := wellFormed.le_stackOf? (mem_ancestors_of_mem_below ordered notRoot metParent)
      isStack around
    exact Nat.not_le_of_lt older notOlder

/-- The walk that enters everything meets, of the members of a stack, only the nested stack that it
starts at. -/
theorem filter_below_nested (isStack : tree.isStack child = true)
    (around : tree.parentStack? child = some stack) :
    (tree.below (fun _ => true) child).filter (fun node => tree.parentStack? node = some stack) =
      [child] := by
  have older := parentStack?_lt wellFormed.ordered around
  have none : ((tree.children child).flatMap (tree.below fun _ => true)).filter
      (fun node => tree.parentStack? node = some stack) = [] := by
    refine List.filter_eq_nil_iff.mpr fun node member isMember => ?_
    obtain ⟨next, isNext, met⟩ := List.mem_flatMap.mp member
    have metFromChild : node ∈ tree.below (fun _ => true) child :=
      mem_below_iff.mpr (.inr ⟨rfl, next, isNext, met⟩)
    have younger : child < node := Nat.lt_of_lt_of_le (mem_children isNext).2.1
      (le_of_mem_ancestors wellFormed.ordered (mem_ancestors_of_mem_below wellFormed.ordered
        (ne_root_of_parent? wellFormed.ordered (mem_children isNext).2.2) met))
    exact wellFormed.parentStack?_ne_of_inside isStack older metFromChild (Nat.ne_of_gt younger)
      (of_decide_eq_true isMember)
  rw [below_of_descends rfl, List.filter_cons_of_pos (by simp [around]), none]

/-- Within a stack the walk that enters everything meets the members that the walk for the members
meets. -/
theorem filter_below_inside (belongs : tree.stackOf? start = some stack) :
    (tree.below (fun _ => true) start).filter (fun node => tree.parentStack? node = some stack) =
      (tree.below (fun node => node = stack || !tree.isStack node) start).filter (· ≠ stack) := by
  induction start using below.induct tree with
  | case1 start inductionHypothesis =>
    have ordered := wellFormed.ordered
    have enters : (decide (start = stack) || !tree.isStack start) = true := by
      cases isStack : tree.isStack start with
      | false => rw [Bool.not_false, Bool.or_true]
      | true =>
        rw [wellFormed.stackOf?_stack isStack] at belongs
        simp [Option.some.inj belongs]
    have inside : ∀ child ∈ tree.children start,
        (tree.below (fun _ => true) child).filter
            (fun node => tree.parentStack? node = some stack) =
          (tree.below (fun node => node = stack || !tree.isStack node) child).filter
            (· ≠ stack) := by
      intro child isChild
      have around : tree.parentStack? child = some stack := by
        rw [parentStack?_of_parent ordered (mem_children isChild).2.2, belongs]
      have apart : child ≠ stack := Nat.ne_of_gt (parentStack?_lt ordered around)
      cases isStack : tree.isStack child with
      | false =>
        refine inductionHypothesis ⟨child, isChild⟩ ?_
        rw [stackOf?_of_not_isStack isStack, around]
      | true =>
        rw [wellFormed.filter_below_nested isStack around,
          below_of_not_descends (by simp [isStack, apart]),
          List.filter_cons_of_pos (by simpa using apart), List.filter_nil]
    have atStart : decide (tree.parentStack? start = some stack) = decide (start ≠ stack) := by
      by_cases same : start = stack
      · subst same
        have notAround : tree.parentStack? start ≠ some start :=
          fun around => Nat.lt_irrefl _ (parentStack?_lt ordered around)
        simp [notAround]
      · have noStack : tree.isStack start = false := by simpa [same] using enters
        rw [← stackOf?_of_not_isStack noStack, belongs]
        simp [same]
    rw [below_of_descends rfl, below_of_descends enters, List.filter_cons, List.filter_cons,
      atStart, List.filter_flatMap, List.filter_flatMap, List.flatMap_congr inside]

/-- On the way up from a stack the walk that enters everything meets no further members of it. -/
theorem filter_below_parent (found : tree.parent? node = some parent)
    (notYounger : node ≤ stack) (around : node ∈ tree.ancestors stack) :
    (tree.below (fun _ => true) parent).filter (fun other => tree.parentStack? other = some stack) =
      (tree.below (fun _ => true) node).filter
        (fun other => tree.parentStack? other = some stack) := by
  have ordered := wellFormed.ordered
  have older := ordered.older found
  have notParent : tree.parentStack? parent ≠ some stack := fun inside =>
    Nat.lt_asymm (parentStack?_lt ordered inside) (Nat.lt_of_lt_of_le older notYounger)
  have isChild := (mem_children_iff ordered).mpr found
  rw [below_of_descends rfl, List.filter_cons_of_neg (by simpa using notParent),
    List.filter_flatMap]
  refine flatMap_eq_of_only (nodup_children tree parent) isChild fun other isOther apart => ?_
  refine List.filter_eq_nil_iff.mpr fun member met isMember => ?_
  -- what has the stack around it has the sibling on the way to the stack around it
  have foundOther := (mem_children isOther).2.2
  have inStack : stack ∈ tree.ancestors member :=
    List.mem_of_mem_tail (List.mem_filter.mp (List.mem_of_head? (of_decide_eq_true isMember))).1
  exact apart (sibling_unique ordered foundOther found
    (mem_ancestors_of_mem_below ordered (ne_root_of_parent? ordered foundOther) met)
    (mem_ancestors_trans ordered inStack around))

/-- The members of a stack are the constructs that have it as the nearest stack strictly around
them, in the order of the tree. -/
theorem membersOf_eq (isStack : tree.isStack stack = true) :
    tree.membersOf stack =
      tree.preorder.filter (fun node => tree.parentStack? node = some stack) := by
  have ordered := wellFormed.ordered
  have notRoot : stack ≠ rootId := by
    rintro rfl
    rw [wellFormed.rootIsNoStack] at isStack
    cases isStack
  obtain ⟨found, place, _⟩ := get?_of_isStack isStack
  have upwards : ∀ node ∈ tree.ancestors stack, node ≠ rootId → ∀ members,
      (tree.below (fun _ => true) node).filter
        (fun other => tree.parentStack? other = some stack) = members →
      tree.preorder.filter (fun other => tree.parentStack? other = some stack) = members := by
    intro node
    induction node using Nat.strongRecOn with
    | _ node inductionHypothesis =>
      intro around notRoot members known
      have notYounger := le_of_mem_ancestors ordered around
      obtain ⟨parent, found, older⟩ :=
        wellFormed.parent_of_lt (Nat.lt_of_le_of_lt notYounger (lt_of_get? place)) notRoot
      have sameAbove := wellFormed.filter_below_parent found notYounger around
      by_cases atRoot : parent = rootId
      · rw [preorder, ← atRoot, sameAbove, known]
      · refine inductionHypothesis parent older ?_ atRoot members (sameAbove.trans known)
        refine mem_ancestors_trans ordered around ?_
        rw [ancestors_of_parent ordered found]
        exact List.mem_cons_of_mem _ (mem_ancestors_self tree atRoot)
  rw [membersOf, ← wellFormed.filter_below_inside (wellFormed.stackOf?_stack isStack)]
  exact (upwards stack (mem_ancestors_self tree notRoot) notRoot _ rfl).symm

end WellFormed

end StackSynth.Tree
