/-
This file says what a directed graph of stacks has to do with cycles. An order in which every arrow
points forward leaves no room for a cycle, and where every one of finitely many nodes has an arrow
into it from among them, there is one. A component holds the nodes that can be reached from each
other, so its nodes lie on cycles unless it is a single node without an arrow to itself.
-/

import Mathlib.Data.Fintype.Card
import Mathlib.Data.Fintype.EquivFin
import Mathlib.Data.Fintype.Sets
import Mathlib.Data.List.Sort
import Mathlib.Logic.Relation
import Mathlib.Order.WellFounded
import StackSynth.Deployment.Digraph

namespace StackSynth

open Relation

namespace StackDigraph

/-- There is an arrow from one node to another. -/
def Arrow (graph : StackDigraph) (source target : NodeId) : Prop := (source, target) ∈ graph.arrows

/-- Every node is there once, and arrows run between nodes. -/
structure Proper (graph : StackDigraph) : Prop where
  once : graph.nodes.Nodup
  source : ∀ {source target}, graph.Arrow source target → source ∈ graph.nodes
  target : ∀ {source target}, graph.Arrow source target → target ∈ graph.nodes

/-- No way leads back to where it started. -/
def Acyclic (graph : StackDigraph) : Prop := ∀ node, ¬TransGen graph.Arrow node node

/-- Two nodes can be reached from each other. -/
def Mutual (graph : StackDigraph) (first second : NodeId) : Prop :=
  ReflTransGen graph.Arrow first second ∧ ReflTransGen graph.Arrow second first

/-- All nodes in an order in which every arrow points forward. -/
structure Orders (graph : StackDigraph) (order : List NodeId) : Prop where
  all : order.Perm graph.nodes
  forward : ∀ source target, graph.Arrow source target → order.idxOf source < order.idxOf target

/-- All nodes, each with those that can be reached from it and from which it can be reached. -/
structure Divides (graph : StackDigraph) (components : List (List NodeId)) : Prop where
  all : components.flatten.Perm graph.nodes
  inhabited : [] ∉ components
  joined : ∀ component ∈ components, ∀ node ∈ component, ∀ other,
    other ∈ component ↔ graph.Mutual node other

end StackDigraph

/-- Algorithms that do to a proper graph what they are there for. -/
structure GraphAlgorithms.Lawful (algorithms : GraphAlgorithms) : Prop where
  orders : ∀ {graph : StackDigraph} {order}, graph.Proper →
    algorithms.topologicalOrder? graph = some order → graph.Orders order
  refuses : ∀ {graph : StackDigraph}, graph.Proper →
    algorithms.topologicalOrder? graph = none → ∃ node, TransGen graph.Arrow node node
  divides : ∀ {graph : StackDigraph}, graph.Proper →
    graph.Divides (algorithms.components graph)

namespace StackDigraph

variable {graph : StackDigraph} {node other source target : NodeId} {nodes order : List NodeId}
  {component : List NodeId} {components : List (List NodeId)}

theorem mem_successors : target ∈ graph.successors source ↔ graph.Arrow source target := by
  simp [successors, Arrow]

/-! ### Ascending lists -/

theorem insertAscending_eq (node : NodeId) (nodes : List NodeId) :
    insertAscending node nodes = nodes.orderedInsert (· ≤ ·) node := by
  induction nodes with
  | nil => rfl
  | cons first rest inductionHypothesis =>
    rw [insertAscending, List.orderedInsert_cons, inductionHypothesis]

theorem ascending_eq (nodes : List NodeId) : ascending nodes = nodes.insertionSort (· ≤ ·) := by
  induction nodes with
  | nil => rfl
  | cons first rest inductionHypothesis =>
    rw [ascending, List.insertionSort_cons, inductionHypothesis, insertAscending_eq]

/-- Nodes that are there once ascend strictly. -/
theorem pairwise_ascending (once : nodes.Nodup) : (ascending nodes).Pairwise (· < ·) := by
  rw [ascending_eq]
  have sorted := List.pairwise_insertionSort (· ≤ ·) nodes
  have distinct := ((List.perm_insertionSort (· ≤ ·) nodes).nodup_iff).mpr once
  exact (sorted.and distinct).imp fun both => Nat.lt_of_le_of_ne both.1 both.2

/-! ### Cycles -/

/-- Where every arrow points forward there is no cycle. -/
theorem Orders.acyclic (orders : graph.Orders order) : graph.Acyclic := by
  intro node cycle
  have further : ∀ {target}, TransGen graph.Arrow node target →
      order.idxOf node < order.idxOf target := by
    intro target leads
    induction leads with
    | single arrow => exact orders.forward _ _ arrow
    | tail _ arrow inductionHypothesis => exact inductionHypothesis.trans (orders.forward _ _ arrow)
  exact Nat.lt_irrefl _ (further cycle)

/-- Where there is always a step back there is a cycle. -/
theorem exists_cycle (inhabited : nodes ≠ [])
    (pursued : ∀ node ∈ nodes, ∃ source ∈ nodes, graph.Arrow source node) :
    ∃ node, TransGen graph.Arrow node node := by
  by_contra acyclic
  -- among finitely many nodes without a cycle, one is first
  let Before (first second : { node // node ∈ nodes }) : Prop :=
    TransGen graph.Arrow first.1 second.1
  have transitive : IsTrans { node // node ∈ nodes } Before := ⟨fun _ _ _ => TransGen.trans⟩
  have irreflexive : Std.Irrefl Before := ⟨fun node cycle => acyclic ⟨node.1, cycle⟩⟩
  have wellFounded : WellFounded Before := Finite.wellFounded_of_trans_of_irrefl Before
  obtain ⟨some, isNode⟩ := List.exists_mem_of_ne_nil _ inhabited
  obtain ⟨first, _, isFirst⟩ := wellFounded.has_min Set.univ ⟨⟨some, isNode⟩, trivial⟩
  obtain ⟨source, isSource, arrow⟩ := pursued first.1 first.2
  exact isFirst ⟨source, isSource⟩ trivial (.single arrow)

/-! ### Components -/

namespace Divides

variable (divides : graph.Divides components)
include divides

/-- A component with a node on a cycle counts as such. -/
theorem isCyclic_of_cycle (isComponent : component ∈ components) (member : node ∈ component)
    (cycle : TransGen graph.Arrow node node) : graph.isCyclic component = true := by
  obtain ⟨next, arrow, back⟩ := TransGen.head'_iff.mp cycle
  have isNext := (divides.joined component isComponent node member next).mpr
    ⟨.single arrow, back⟩
  cases component with
  | nil => cases member
  | cons first rest =>
    cases rest with
    | nil =>
      rw [List.mem_singleton.mp member, List.mem_singleton.mp isNext] at arrow
      have loop : (first, first) ∈ graph.arrows := arrow
      simpa [StackDigraph.isCyclic] using loop
    | cons second rest => simp [StackDigraph.isCyclic]

variable (proper : graph.Proper)
include proper

theorem nodup_flatten : components.flatten.Nodup := divides.all.nodup_iff.mpr proper.once

/-- The nodes of a component lie on cycles if they count as such. -/
theorem cycle_of_isCyclic (isComponent : component ∈ components)
    (isCyclic : graph.isCyclic component = true) (member : node ∈ component) :
    TransGen graph.Arrow node node := by
  have joined := divides.joined component isComponent
  have once := (List.nodup_flatten.mp (divides.nodup_flatten proper)).1 component isComponent
  -- with another node, the way to it and back is a cycle
  have around : ∀ other ∈ component, other ≠ node → TransGen graph.Arrow node node := by
    intro other isOther apart
    obtain ⟨there, back⟩ := (joined node member other).mp isOther
    rcases reflTransGen_iff_eq_or_transGen.mp there with same | there
    · exact absurd same apart
    · exact there.trans_left back
  cases component with
  | nil => cases member
  | cons first rest =>
    cases rest with
    | nil =>
      rw [List.mem_singleton.mp member]
      have arrow : (first, first) ∈ graph.arrows := by
        simpa [StackDigraph.isCyclic] using isCyclic
      exact .single arrow
    | cons second rest =>
      have apart : first ≠ second := fun same =>
        (List.nodup_cons.mp once).1 (same ▸ List.mem_cons_self)
      by_cases here : first = node
      · exact around second (List.mem_cons_of_mem _ List.mem_cons_self) (here ▸ apart.symm)
      · exact around first List.mem_cons_self here

/-- The nodes of cyclic components are those on cycles. -/
theorem mem_cyclic_iff :
    node ∈ (components.filter graph.isCyclic).flatten ↔ TransGen graph.Arrow node node := by
  rw [List.mem_flatten]
  constructor
  · rintro ⟨component, isListed, member⟩
    obtain ⟨isComponent, isCyclic⟩ := List.mem_filter.mp isListed
    exact divides.cycle_of_isCyclic proper isComponent isCyclic member
  · intro cycle
    obtain ⟨_, arrow, _⟩ := TransGen.head'_iff.mp cycle
    obtain ⟨component, isComponent, member⟩ :=
      List.mem_flatten.mp (divides.all.mem_iff.mpr (proper.source arrow))
    have isCyclic := divides.isCyclic_of_cycle isComponent member cycle
    exact ⟨component, List.mem_filter.mpr ⟨isComponent, isCyclic⟩, member⟩

theorem nodup_cyclic : (components.filter graph.isCyclic).flatten.Nodup := by
  obtain ⟨each, apart⟩ := List.nodup_flatten.mp (divides.nodup_flatten proper)
  refine List.nodup_flatten.mpr ⟨fun component isListed => ?_, apart.filter _⟩
  exact each component (List.mem_of_mem_filter isListed)

end Divides

end StackDigraph

end StackSynth
