/-
This file compares trees that hold some constructs in common, under other numbers and perhaps among
further ones. What is asked of a construct looks up the tree, and there it meets the parents of what
both trees hold; so where these are held in common as well, with their ids and as the same kind of
construct, the answers are the same up to the numbers in them.
-/

import Mathlib.Data.List.Basic
import StackSynth.Proofs.Construct.Ancestry

namespace StackSynth.Tree

/-- Two trees that agree on the constructs inside a region of the first, and on all around these. -/
structure Resembles (inside : NodeId → Prop) (number : NodeId → NodeId) (first second : Tree) :
    Prop where
  ordered : first.Ordered
  orderedToo : second.Ordered
  root : ∀ {node}, inside node → (number node = rootId ↔ node = rootId)
  parents : ∀ {node}, inside node →
    second.parent? (number node) = (first.parent? node).map number
  closed : ∀ {node parent}, inside node → first.parent? node = some parent → inside parent
  ids : ∀ {node}, inside node →
    (second.get? (number node)).map Node.id = (first.get? node).map Node.id
  areStacks : ∀ {node}, inside node → second.isStack (number node) = first.isStack node

namespace Resembles

variable {inside : NodeId → Prop} {number : NodeId → NodeId} {first second : Tree}
  {node other : NodeId} (resembles : first.Resembles inside number second)
include resembles

/-- All around a construct of the region lies in the region. -/
theorem inside_of_mem_ancestors :
    ∀ {node}, inside node → other ∈ first.ancestors node → inside other := by
  intro node
  induction node using Nat.strongRecOn with
  | _ node inductionHypothesis =>
    intro within member
    by_cases atRoot : node = rootId
    · rw [atRoot, ancestors_root] at member
      exact nomatch member
    · cases found : first.parent? node with
      | none =>
        rw [ancestors_of_orphan atRoot found] at member
        exact List.mem_singleton.mp member ▸ within
      | some parent =>
        rw [ancestors_of_parent resembles.ordered found] at member
        rcases List.mem_cons.mp member with rfl | above
        · exact within
        · exact inductionHypothesis parent (resembles.ordered.older found)
            (resembles.closed within found) above

theorem ancestors :
    ∀ {node}, inside node → second.ancestors (number node) = (first.ancestors node).map number := by
  intro node
  induction node using Nat.strongRecOn with
  | _ node inductionHypothesis =>
    intro within
    by_cases atRoot : node = rootId
    · rw [(resembles.root within).mpr atRoot, atRoot, ancestors_root, ancestors_root, List.map_nil]
    · have above := resembles.parents within
      cases found : first.parent? node with
      | none =>
        rw [found] at above
        rw [ancestors_of_orphan atRoot found,
          ancestors_of_orphan (fun same => atRoot ((resembles.root within).mp same)) above]
        rfl
      | some parent =>
        rw [found] at above
        rw [ancestors_of_parent resembles.ordered found,
          ancestors_of_parent resembles.orderedToo above,
          inductionHypothesis parent (resembles.ordered.older found)
            (resembles.closed within found), List.map_cons]

/-- Constructs of the region have the same ids under their other numbers. -/
theorem idsOf {nodes : List NodeId} (within : ∀ node ∈ nodes, inside node) :
    second.idsOf (nodes.map number) = first.idsOf nodes := by
  rw [Tree.idsOf, Tree.idsOf, List.filterMap_map]
  exact congrArg List.reverse (List.filterMap_congr fun node member =>
    resembles.ids (within node member))

theorem pathComponents (within : inside node) :
    second.pathComponents (number node) = first.pathComponents node := by
  rw [Tree.pathComponents, Tree.pathComponents, resembles.ancestors within,
    resembles.idsOf fun _ member => resembles.inside_of_mem_ancestors within member]

/-- Among constructs of the region, the same are stacks. -/
theorem filter_isStack {nodes : List NodeId} (within : ∀ node ∈ nodes, inside node) :
    (nodes.map number).filter second.isStack = (nodes.filter first.isStack).map number := by
  rw [List.filter_map]
  exact congrArg _ (List.filter_congr fun node member => resembles.areStacks (within node member))

theorem stackChain (within : inside node) :
    second.stackChain (number node) = (first.stackChain node).map number := by
  rw [Tree.stackChain, Tree.stackChain, resembles.ancestors within,
    resembles.filter_isStack fun _ member => resembles.inside_of_mem_ancestors within member]

theorem stackOf? (within : inside node) :
    second.stackOf? (number node) = (first.stackOf? node).map number := by
  rw [Tree.stackOf?, Tree.stackOf?, resembles.stackChain within, List.head?_map]

theorem topLevelOf? (within : inside node) :
    second.topLevelOf? (number node) = (first.topLevelOf? node).map number := by
  rw [Tree.topLevelOf?, Tree.topLevelOf?, resembles.stackChain within, List.getLast?_map]

theorem parentStack? (within : inside node) :
    second.parentStack? (number node) = (first.parentStack? node).map number := by
  have tailInside : ∀ other ∈ (first.ancestors node).tail, inside other := fun _ member =>
    resembles.inside_of_mem_ancestors within (List.mem_of_mem_tail member)
  rw [Tree.parentStack?, Tree.parentStack?, resembles.ancestors within, ← List.map_tail,
    resembles.filter_isStack tailInside, List.head?_map]

end Resembles

end StackSynth.Tree
