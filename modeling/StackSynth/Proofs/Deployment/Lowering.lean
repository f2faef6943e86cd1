/-
This file looks for waves and for cycles with operations that may fault. While levels are taken
away, the numbers kept for the nodes are lowered by one for every arrow that goes with a node that
leaves. A number counts the arrows from the nodes that still wait, so there is an arrow left to be
counted whenever it is lowered, and it is never lowered below zero. A component that is asked for
its only node has one, since no component is empty.
-/

import StackSynth.Proofs.Concurrence
import StackSynth.Proofs.Deployment.Registration
import StackSynth.Proofs.Guarded

namespace StackSynth

open Guarded Outcome

namespace StackDigraph

variable {graph : StackDigraph} {degrees : SortedMap NodeId Nat} {waits : NodeId → Bool}
  {node : NodeId} {waiting component : List NodeId}

/-! ### Levels and cycles with operations that may fault -/

/-- The numbers of arrows with one arrow less into a node. -/
def guardedLowered (degrees : SortedMap NodeId Nat) (node : NodeId) :
    Guarded (SortedMap NodeId Nat) :=
  match degrees.get? node with
  | some degree => do return degrees.insert node (← less degree 1)
  | none => return degrees

/-- The numbers of arrows without the arrows out of a node. -/
def guardedRelease (graph : StackDigraph) (degrees : SortedMap NodeId Nat) (node : NodeId) :
    Guarded (SortedMap NodeId Nat) :=
  (graph.successors node).foldlM guardedLowered degrees

/-- The levels of the nodes that wait. The number of every one of them is looked up. -/
def guardedLevelsFrom (graph : StackDigraph) (degrees : SortedMap NodeId Nat)
    (waiting : List NodeId) : Guarded (Option (List (List NodeId))) :=
  if waiting = [] then return some []
  else do
    waiting.forM fun node => do
      let _ ← known (degrees.get? node)
    if _ : ready degrees waiting = [] then return none
    else do
      let level := ready degrees waiting
      let released ← level.foldlM graph.guardedRelease degrees
      let further ← graph.guardedLevelsFrom released (waiting.removeAll level)
      return further.map (level :: ·)
termination_by waiting.length
decreasing_by exact length_removeAll_ready_lt ‹_›

/-- The levels of all nodes. -/
def guardedLevels (graph : StackDigraph) : Guarded (Option (List (List NodeId))) :=
  graph.guardedLevelsFrom
    (SortedMap.ofList (graph.nodes.map (fun node => (node, graph.incoming node)))) graph.nodes

/-- Whether the nodes of a component lie on cycles. -/
def guardedIsCyclic (graph : StackDigraph) (component : List NodeId) : Guarded Bool :=
  if component.length > 1 then return true
  else do
    let node ← known component[0]?
    return graph.arrows.contains (node, node)

/-! ### None of them faults -/

theorem guardedLowered_eq (enough : ∀ degree, degrees.get? node = some degree → 1 ≤ degree) :
    guardedLowered degrees node = .ok (lowered degrees node) := by
  rw [guardedLowered, lowered]
  cases found : degrees.get? node with
  | none => rfl
  | some degree =>
    simp only [less_of_le (enough degree found), ok_bind]
    rfl

/-- Numbers can be lowered as often as they say. -/
theorem foldlM_guardedLowered {targets : List NodeId}
    (enough : ∀ target degree, degrees.get? target = some degree → targets.count target ≤ degree) :
    targets.foldlM guardedLowered degrees = .ok (targets.foldl lowered degrees) := by
  refine foldlM_eq_ok (fun targets degrees => ∀ target degree,
    SortedMap.get? degrees target = some degree → targets.count target ≤ degree) enough ?_
  intro target rest degrees enough
  constructor
  · refine guardedLowered_eq fun degree found => ?_
    have counted := enough target degree found
    rw [List.count_cons_self] at counted
    exact Nat.le_of_add_left_le counted
  · intro other degree found
    rw [get?_lowered] at found
    split at found
    · rename_i here
      subst here
      obtain ⟨before, atBefore, rfl⟩ := Option.map_eq_some_iff.mp found
      have counted := enough target before atBefore
      rw [List.count_cons_self] at counted
      exact Nat.le_sub_of_add_le counted
    · exact Nat.le_trans List.count_le_count_cons (enough other degree found)

/-- The numbers are as great as a node that waits has arrows to take along. -/
theorem Counts.guardedRelease_eq (proper : graph.Proper) (counts : graph.Counts waits degrees)
    (isWaiting : waits node = true) :
    graph.guardedRelease degrees node = .ok (graph.release degrees node) := by
  refine foldlM_guardedLowered fun target degree found => ?_
  by_cases isTarget : target ∈ graph.successors node
  · have isNode := proper.target (mem_successors.mp isTarget)
    rw [counts target isNode] at found
    rw [count_successors, ← Option.some.inj found, arrowsLeft_eq_add isWaiting]
    exact Nat.le_add_left _ _
  · rw [List.count_eq_zero.mpr isTarget]
    exact Nat.zero_le _

/-- Nodes that wait and leave one after the other take along what is left of their arrows. -/
theorem Counts.foldlM_guardedRelease (proper : graph.Proper) {level : List NodeId}
    (counts : graph.Counts waits degrees) (once : level.Nodup)
    (allWait : ∀ node ∈ level, waits node = true) :
    level.foldlM graph.guardedRelease degrees = .ok (level.foldl graph.release degrees) := by
  refine foldlM_eq_ok (fun level degrees => ∃ waits : NodeId → Bool,
    graph.Counts waits degrees ∧ level.Nodup ∧ ∀ node ∈ level, waits node = true)
    ⟨waits, counts, once, allWait⟩ ?_
  rintro node rest degrees ⟨waits, counts, once, allWait⟩
  obtain ⟨isNew, onceToo⟩ := List.nodup_cons.mp once
  have isWaiting := allWait node List.mem_cons_self
  refine ⟨counts.guardedRelease_eq proper isWaiting, _, counts.release isWaiting, onceToo, ?_⟩
  intro other member
  have apart : other ≠ node := fun same => isNew (same ▸ member)
  simp [allWait other (List.mem_cons_of_mem _ member), apart]

/-- The numbers of the nodes that wait are all there. -/
theorem Pending.lookUps_eq (pending : graph.Pending degrees waiting) :
    (waiting.forM fun node => do let _ ← known (degrees.get? node)) = .ok () := by
  refine forM_eq_ok.mpr fun node isWaiting => ?_
  rw [pending.counts node (pending.within node isWaiting)]
  rfl

/-- While nodes wait none of their numbers is lowered below zero. -/
theorem Pending.guardedLevelsFrom_eq (proper : graph.Proper)
    (pending : graph.Pending degrees waiting) :
    graph.guardedLevelsFrom degrees waiting = .ok (graph.levelsFrom degrees waiting) := by
  fun_induction levelsFrom graph degrees waiting with
  | case1 => rw [guardedLevelsFrom, if_pos rfl]; rfl
  | case2 degrees waiting inhabited noneReady =>
    rw [guardedLevelsFrom, if_neg inhabited, pending.lookUps_eq, ok_bind, dif_pos noneReady]
    rfl
  | case3 degrees waiting inhabited proceeds level inductionHypothesis =>
    have released := pending.counts.foldlM_guardedRelease proper
      (pending.pairwise_ready.imp Nat.ne_of_lt)
      fun node isReady => List.contains_iff_mem.mpr (pending.mem_ready.mp isReady).1
    rw [guardedLevelsFrom, if_neg inhabited, pending.lookUps_eq, ok_bind, dif_neg proceeds]
    dsimp only
    rw [released, ok_bind, inductionHypothesis pending.step, ok_bind]
    cases graph.levelsFrom (level.foldl graph.release degrees) (waiting.removeAll level) <;> rfl

theorem guardedLevels_eq (proper : graph.Proper) :
    graph.guardedLevels = .ok graph.levels :=
  (Pending.start proper).guardedLevelsFrom_eq proper

theorem guardedIsCyclic_eq (inhabited : component ≠ []) :
    graph.guardedIsCyclic component = .ok (graph.isCyclic component) := by
  obtain ⟨node, rest, rfl⟩ := List.exists_cons_of_ne_nil inhabited
  cases rest with
  | nil => rfl
  | cons other rest => rfl

end StackDigraph

namespace DeployGraph

variable {graph : DeployGraph} {algorithms : GraphAlgorithms}

/-! ### The graph of an application -/

/-- The stacks on cycles, in the order of creation. -/
def guardedOnCycles (graph : DeployGraph) (algorithms : GraphAlgorithms) :
    Guarded (List NodeId) := do
  let cyclic ← (algorithms.components graph.digraph).filterM graph.digraph.guardedIsCyclic
  return StackDigraph.ascending cyclic.flatten

/-- Refuses a graph with cycles, naming the stacks on them. -/
def guardedVerifyAcyclicBy (graph : DeployGraph) (algorithms : GraphAlgorithms) :
    Guarded (Except DeployError Unit) :=
  match algorithms.topologicalOrder? graph.digraph with
  | some _ => return .ok ()
  | none => do return .error (.cycle ((← graph.guardedOnCycles algorithms).map graph.name))

/-- The stacks in waves. -/
def guardedWavesBy (graph : DeployGraph) (algorithms : GraphAlgorithms) :
    Guarded (Except DeployError (List (List NodeId))) := do
  match ← graph.digraph.guardedLevels with
  | some waves => return .ok waves
  | none =>
    let verified ← graph.guardedVerifyAcyclicBy algorithms
    return do
      verified
      throw (.cycle [])

/-- The stacks in an order of deployment. -/
def guardedOrderBy (graph : DeployGraph) (algorithms : GraphAlgorithms) :
    Guarded (Except DeployError (List NodeId)) := do
  match ← graph.guardedVerifyAcyclicBy algorithms with
  | .error cause => return .error cause
  | .ok () => return (← graph.guardedWavesBy algorithms).map List.flatten

/-- Nothing that is asked of a graph about its order leads to a fault. -/
structure Faultless (graph : DeployGraph) (algorithms : GraphAlgorithms) : Prop where
  verifies : graph.guardedVerifyAcyclicBy algorithms = .ok (graph.verifyAcyclicBy algorithms)
  levels : graph.guardedWavesBy algorithms = .ok (graph.wavesBy algorithms)
  orders : graph.guardedOrderBy algorithms = .ok (graph.orderBy algorithms)

section

variable (complete : graph.Complete) (lawful : algorithms.Lawful)
include complete lawful

theorem guardedOnCycles_eq :
    graph.guardedOnCycles algorithms = .ok (graph.onCycles algorithms) := by
  have tested : (algorithms.components graph.digraph).filterM graph.digraph.guardedIsCyclic =
      .ok ((algorithms.components graph.digraph).filter graph.digraph.isCyclic) := by
    refine filterM_eq_ok fun component member => StackDigraph.guardedIsCyclic_eq ?_
    rintro rfl
    exact (lawful.divides complete.proper).inhabited member
  rw [guardedOnCycles, tested, ok_bind, onCycles]
  rfl

theorem guardedVerifyAcyclicBy_eq :
    graph.guardedVerifyAcyclicBy algorithms = .ok (graph.verifyAcyclicBy algorithms) := by
  rw [guardedVerifyAcyclicBy, verifyAcyclicBy, guardedOnCycles_eq complete lawful]
  cases algorithms.topologicalOrder? graph.digraph <;> rfl

theorem guardedWavesBy_eq : graph.guardedWavesBy algorithms = .ok (graph.wavesBy algorithms) := by
  rw [guardedWavesBy, wavesBy, StackDigraph.guardedLevels_eq complete.proper, ok_bind,
    guardedVerifyAcyclicBy_eq complete lawful]
  cases graph.digraph.levels <;> rfl

theorem guardedOrderBy_eq : graph.guardedOrderBy algorithms = .ok (graph.orderBy algorithms) := by
  rw [guardedOrderBy, orderBy, guardedVerifyAcyclicBy_eq complete lawful, ok_bind,
    guardedWavesBy_eq complete lawful]
  cases graph.verifyAcyclicBy algorithms with
  | error cause => rfl
  | ok passed => cases graph.wavesBy algorithms <;> rfl

theorem Complete.faultless : graph.Faultless algorithms where
  verifies := guardedVerifyAcyclicBy_eq complete lawful
  levels := guardedWavesBy_eq complete lawful
  orders := guardedOrderBy_eq complete lawful

end

end DeployGraph

end StackSynth
