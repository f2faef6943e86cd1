/-
This file proves that the plain algorithms do what they are there for. The search takes one step
after the other, as many as there are nodes. A step that finds nothing new is the last one that
matters, and every other step finds a node, so there are never enough steps to miss one. Nodes that
can be reached from each other have the same component, and others have components without a node in
common.
-/

import Mathlib.Data.Finset.Card
import Mathlib.Data.Finset.Dedup
import StackSynth.Proofs.Deployment.Levels
import StackSynth.Proofs.Firsts

namespace StackSynth

open Relation

namespace StackDigraph

variable {graph : StackDigraph} {known : List NodeId} {node other source target : NodeId}
  {steps : Nat}

/-- Nodes from which no arrow leads to others. -/
def Closed (graph : StackDigraph) (nodes : List NodeId) : Prop :=
  ∀ source ∈ nodes, ∀ target, graph.Arrow source target → target ∈ nodes

/-! ### Steps of the search -/

/-- What is known after one more step. -/
def widened (graph : StackDigraph) (known : List NodeId) : List NodeId :=
  (known ++ known.flatMap graph.successors).eraseDups

theorem mem_widened : target ∈ graph.widened known ↔
    target ∈ known ∨ ∃ source ∈ known, graph.Arrow source target := by
  rw [widened, List.mem_eraseDups, List.mem_append, List.mem_flatMap]
  simp only [mem_successors]

theorem mem_reach_of_known (member : node ∈ known) : node ∈ graph.reach steps known := by
  induction steps generalizing known with
  | zero => exact member
  | succ steps inductionHypothesis =>
    exact inductionHypothesis (mem_widened.mpr (.inl member))

/-- The search stays among nodes that its steps do not leave. -/
theorem reach_induction {holds : NodeId → Prop}
    (kept : ∀ source target, holds source → graph.Arrow source target → holds target)
    (atStart : ∀ node ∈ known, holds node) : ∀ node ∈ graph.reach steps known, holds node := by
  induction steps generalizing known with
  | zero => exact atStart
  | succ steps inductionHypothesis =>
    refine inductionHypothesis fun node member => ?_
    rcases mem_widened.mp member with early | ⟨before, isKnown, arrow⟩
    · exact atStart node early
    · exact kept before node (atStart before isKnown) arrow

/-- Either the search ends where nothing is left to find, or every step finds a node. -/
theorem closed_or_grows (graph : StackDigraph) (steps : Nat) :
    ∀ known, graph.Closed (graph.reach steps known) ∨
      known.toFinset.card + steps ≤ (graph.reach steps known).toFinset.card := by
  induction steps with
  | zero => exact fun known => .inr (Nat.le_refl _)
  | succ steps inductionHypothesis =>
    intro known
    by_cases closed : graph.Closed known
    · -- nothing is found from here on
      have stays : ∀ node ∈ graph.reach (steps + 1) known, node ∈ known :=
        reach_induction (fun source target member => closed source member target)
          (fun _ member => member)
      exact .inl fun node member other arrow =>
        mem_reach_of_known (closed node (stays node member) other arrow)
    · obtain ⟨source, isKnown, target, arrow, isNew⟩ :
          ∃ source ∈ known, ∃ target, graph.Arrow source target ∧ target ∉ known := by
        simpa only [Closed, not_forall, exists_prop] using closed
      have grows : known.toFinset.card + 1 ≤ (graph.widened known).toFinset.card := by
        refine Finset.card_lt_card (Finset.ssubset_iff_of_subset ?_ |>.mpr ⟨target, ?_, ?_⟩)
        · intro old member
          rw [List.mem_toFinset] at member ⊢
          exact mem_widened.mpr (.inl member)
        · exact List.mem_toFinset.mpr (mem_widened.mpr (.inr ⟨source, isKnown, arrow⟩))
        · exact fun member => isNew (List.mem_toFinset.mp member)
      rcases inductionHypothesis (graph.widened known) with ended | further
      · exact .inl ended
      · refine .inr (Nat.le_trans ?_ further)
        omega

/-! ### What is reached -/

section Proper

variable (proper : graph.Proper)
include proper

/-- As many steps as there are nodes lead to an end. -/
theorem closed_reach (isNode : source ∈ graph.nodes) :
    graph.Closed (graph.reach graph.nodes.length [source]) := by
  have within : ∀ node ∈ graph.reach graph.nodes.length [source], node ∈ graph.nodes :=
    reach_induction (fun _ _ _ arrow => proper.target arrow)
      (fun node only => List.mem_singleton.mp only ▸ isNode)
  have few : (graph.reach graph.nodes.length [source]).toFinset.card ≤ graph.nodes.length := by
    refine Nat.le_trans (Finset.card_le_card fun node member => ?_) graph.nodes.toFinset_card_le
    rw [List.mem_toFinset] at member ⊢
    exact within node member
  rcases closed_or_grows graph graph.nodes.length [source] with ended | many
  · exact ended
  · have one : [source].toFinset.card = 1 := Finset.card_singleton source
    omega

theorem reaches_iff (isNode : source ∈ graph.nodes) :
    graph.reaches source target = true ↔ ReflTransGen graph.Arrow source target := by
  rw [reaches, List.contains_iff_mem]
  constructor
  · have leads : ∀ node ∈ graph.reach graph.nodes.length [source],
        ReflTransGen graph.Arrow source node := by
      refine reach_induction (fun _ _ before arrow => before.tail arrow) fun node only => ?_
      rw [List.mem_singleton.mp only]
    exact leads target
  · intro leads
    induction leads with
    | refl => exact mem_reach_of_known (List.mem_singleton_self source)
    | tail _ arrow inductionHypothesis =>
      exact closed_reach proper isNode _ inductionHypothesis _ arrow

theorem mem_nodes_of_mutual (isNode : node ∈ graph.nodes) (joined : graph.Mutual node other) :
    other ∈ graph.nodes := by
  rcases joined.1.cases_tail with same | ⟨_, _, arrow⟩
  · exact same ▸ isNode
  · exact proper.target arrow

theorem mem_componentOf (isNode : node ∈ graph.nodes) :
    other ∈ graph.componentOf node ↔ graph.Mutual node other := by
  rw [componentOf, List.mem_filter, Bool.and_eq_true, reaches_iff proper isNode]
  constructor
  · rintro ⟨isOther, there, back⟩
    exact ⟨there, (reaches_iff proper isOther).mp back⟩
  · intro joined
    have isOther := mem_nodes_of_mutual proper isNode joined
    exact ⟨isOther, joined.1, (reaches_iff proper isOther).mpr joined.2⟩

/-- Nodes that can be reached from each other have the same component. -/
theorem componentOf_eq (isNode : node ∈ graph.nodes) (joined : graph.Mutual node other) :
    graph.componentOf other = graph.componentOf node := by
  have isOther := mem_nodes_of_mutual proper isNode joined
  refine List.filter_congr fun third isThird => ?_
  have same : third ∈ graph.componentOf other ↔ third ∈ graph.componentOf node := by
    rw [mem_componentOf proper isNode, mem_componentOf proper isOther]
    constructor
    · exact fun further => ⟨joined.1.trans further.1, further.2.trans joined.2⟩
    · exact fun further => ⟨joined.2.trans further.1, further.2.trans joined.1⟩
  rw [componentOf, componentOf, List.mem_filter, List.mem_filter, and_iff_right isThird,
    and_iff_right isThird] at same
  exact Bool.eq_iff_iff.mpr same

theorem mem_componentOf_self (isNode : node ∈ graph.nodes) : node ∈ graph.componentOf node :=
  (mem_componentOf proper isNode).mpr ⟨.refl, .refl⟩

theorem divides_components : graph.Divides (graph.nodes.map graph.componentOf).eraseDups := by
  have each : ∀ {component}, component ∈ (graph.nodes.map graph.componentOf).eraseDups →
      ∃ node ∈ graph.nodes, graph.componentOf node = component :=
    fun listed => List.mem_map.mp (List.mem_eraseDups.mp listed)
  constructor
  case inhabited =>
    intro listed
    obtain ⟨node, isNode, same⟩ := each listed
    have member := mem_componentOf_self proper isNode
    rw [same] at member
    cases member
  case joined =>
    intro component listed node member other
    obtain ⟨first, isFirst, rfl⟩ := each listed
    have joined := (mem_componentOf proper isFirst).mp member
    rw [← componentOf_eq proper isFirst joined,
      mem_componentOf proper (mem_nodes_of_mutual proper isFirst joined)]
  case all =>
    have once : (graph.nodes.map graph.componentOf).eraseDups.flatten.Nodup := by
      refine List.nodup_flatten.mpr ⟨fun component listed => ?_, ?_⟩
      · obtain ⟨_, _, rfl⟩ := each listed
        exact proper.once.filter _
      · -- components with a node in common are the same
        refine (nodup_eraseDups _).imp_of_mem fun {first second} isFirst isSecond apart => ?_
        obtain ⟨one, isOne, rfl⟩ := each isFirst
        obtain ⟨two, isTwo, rfl⟩ := each isSecond
        intro shared inOne inTwo
        refine apart ?_
        rw [← componentOf_eq proper isOne ((mem_componentOf proper isOne).mp inOne),
          ← componentOf_eq proper isTwo ((mem_componentOf proper isTwo).mp inTwo)]
    refine (List.perm_ext_iff_of_nodup once proper.once).mpr fun node => ?_
    rw [List.mem_flatten]
    constructor
    · rintro ⟨component, listed, member⟩
      obtain ⟨_, _, rfl⟩ := each listed
      exact (List.mem_filter.mp member).1
    · intro isNode
      refine ⟨_, List.mem_eraseDups.mpr (List.mem_map.mpr ⟨node, isNode, rfl⟩), ?_⟩
      exact mem_componentOf_self proper isNode

end Proper

end StackDigraph

/-- The plain algorithms are lawful. -/
theorem GraphAlgorithms.lawful_plain : plain.Lawful where
  orders proper found := by
    obtain ⟨levels, isFound, rfl⟩ := Option.map_eq_some_iff.mp found
    exact StackDigraph.orders_of_levels proper isFound
  refuses proper stuck :=
    (StackDigraph.Pending.start proper).exists_cycle (Option.map_eq_none_iff.mp stuck)
  divides proper := StackDigraph.divides_components proper

end StackSynth
