/-
This file proves that a graph is refused exactly if it has a cycle, and for the stacks on its
cycles, whichever way it is asked. Its directed graph holds the same stacks and dependencies as its
lists, with the arrows the other way round, so a cycle of the one is a cycle of the other.
-/

import StackSynth.Deployment.Graph
import StackSynth.Proofs.Deployment.Components
import StackSynth.Proofs.Outcome

namespace StackSynth.DeployGraph

open Outcome Relation

/-- A stack is deployed behind another one. -/
def DependsOn (graph : DeployGraph) (dependent dependency : NodeId) : Prop :=
  dependency ∈ graph.dependenciesOf dependent

/-- The directed graph has the stacks and the dependencies of the graph, each once. -/
structure Complete (graph : DeployGraph) : Prop where
  once : graph.digraph.nodes.Nodup
  nodes : ∀ {stack}, stack ∈ graph.digraph.nodes ↔ graph.stackNames.contains stack = true
  arrowsOnce : graph.digraph.arrows.Nodup
  arrows : ∀ {dependent dependency},
    graph.digraph.Arrow dependency dependent ↔ graph.DependsOn dependent dependency
  within : ∀ {dependent dependency}, graph.DependsOn dependent dependency →
    graph.stackNames.contains dependent = true ∧ graph.stackNames.contains dependency = true

variable {graph : DeployGraph} {algorithms : GraphAlgorithms} {stack other : NodeId}
  {waves : List (List NodeId)}

namespace Complete

variable (complete : graph.Complete)
include complete

theorem proper : graph.digraph.Proper where
  once := complete.once
  source arrow := complete.nodes.mpr (complete.within (complete.arrows.mp arrow)).2
  target arrow := complete.nodes.mpr (complete.within (complete.arrows.mp arrow)).1

/-- Where arrows lead, dependencies lead back. -/
theorem transGen_iff :
    TransGen graph.digraph.Arrow stack other ↔ TransGen graph.DependsOn other stack := by
  have same : graph.digraph.Arrow = Function.swap graph.DependsOn := by
    funext dependency dependent
    exact propext complete.arrows
  rw [same]
  exact transGen_swap

theorem acyclic_iff :
    graph.digraph.Acyclic ↔ ∀ stack, ¬TransGen graph.DependsOn stack stack :=
  forall_congr' fun _ => not_congr complete.transGen_iff

end Complete

/-! ### Cycles -/

section Lawful

variable (complete : graph.Complete) (lawful : algorithms.Lawful)
include complete lawful

theorem mem_onCycles :
    stack ∈ graph.onCycles algorithms ↔ TransGen graph.DependsOn stack stack := by
  rw [onCycles, StackDigraph.mem_ascending,
    (lawful.divides complete.proper).mem_cyclic_iff complete.proper, complete.transGen_iff]

theorem pairwise_onCycles : (graph.onCycles algorithms).Pairwise (· < ·) :=
  StackDigraph.pairwise_ascending ((lawful.divides complete.proper).nodup_cyclic complete.proper)

/-- A graph is accepted exactly if no stack depends on itself. -/
theorem verifyAcyclicBy_eq_ok : graph.verifyAcyclicBy algorithms = .ok () ↔
    ∀ stack, ¬TransGen graph.DependsOn stack stack := by
  rw [← complete.acyclic_iff, verifyAcyclicBy]
  cases found : algorithms.topologicalOrder? graph.digraph with
  | some order => exact iff_of_true rfl (lawful.orders complete.proper found).acyclic
  | none =>
    obtain ⟨node, cycle⟩ := lawful.refuses complete.proper found
    exact iff_of_false (by rintro ⟨⟩) fun acyclic => acyclic node cycle

/-- A graph with a cycle is refused for the stacks on its cycles. -/
theorem verifyAcyclicBy_eq_error (cycle : TransGen graph.DependsOn stack stack) :
    graph.verifyAcyclicBy algorithms =
      .error (.cycle ((graph.onCycles algorithms).map graph.name)) := by
  have refused := mt (verifyAcyclicBy_eq_ok complete lawful).mp fun none => none stack cycle
  rw [verifyAcyclicBy] at refused ⊢
  split
  · rename_i found
    rw [found] at refused
    exact absurd rfl refused
  · rfl

end Lawful

/-- A graph is accepted exactly if no stack depends on itself. -/
theorem verifyAcyclic_eq_ok (complete : graph.Complete) :
    graph.verifyAcyclic = .ok () ↔ ∀ stack, ¬TransGen graph.DependsOn stack stack :=
  verifyAcyclicBy_eq_ok complete GraphAlgorithms.lawful_plain

/-! ### Waves -/

/-- The waves are the levels of the directed graph. -/
theorem wavesBy_eq_ok :
    graph.wavesBy algorithms = .ok waves ↔ graph.digraph.levels = some waves := by
  rw [wavesBy]
  cases graph.digraph.levels with
  | some levels => rw [Except.ok.injEq, Option.some.injEq]
  | none =>
    refine iff_of_false (fun found => ?_) (Option.some_ne_none waves).symm
    obtain ⟨_, _, never⟩ := bind_eq_ok.mp found
    cases never

theorem exists_wavesBy_iff (complete : graph.Complete) :
    (∃ waves, graph.wavesBy algorithms = .ok waves) ↔
      ∀ stack, ¬TransGen graph.DependsOn stack stack := by
  simp only [wavesBy_eq_ok]
  rw [← complete.acyclic_iff]
  exact StackDigraph.exists_levels_iff complete.proper

/-- A graph that is refused has no waves, for the same reason. -/
theorem wavesBy_eq_error (complete : graph.Complete) {cause : DeployError}
    (cycle : TransGen graph.DependsOn stack stack)
    (refused : graph.verifyAcyclicBy algorithms = .error cause) :
    graph.wavesBy algorithms = .error cause := by
  have noLevels : graph.digraph.levels = none := by
    refine Option.eq_none_iff_forall_ne_some.mpr fun levels found => ?_
    have deployed : graph.wavesBy algorithms = .ok levels := wavesBy_eq_ok.mpr found
    exact (exists_wavesBy_iff complete).mp ⟨levels, deployed⟩ stack cycle
  rw [wavesBy, noLevels, refused]
  rfl

/-- The order is that of the waves. -/
theorem orderBy_eq_ok (accepted : graph.verifyAcyclicBy algorithms = .ok ())
    (found : graph.wavesBy algorithms = .ok waves) :
    graph.orderBy algorithms = .ok waves.flatten := by
  rw [orderBy, accepted, found]
  rfl

theorem orderBy_eq_error {cause : DeployError}
    (refused : graph.verifyAcyclicBy algorithms = .error cause) :
    graph.orderBy algorithms = .error cause := by
  rw [orderBy, refused]
  rfl

/-! ### By whichever algorithms -/

section Alike

variable {others : GraphAlgorithms} (complete : graph.Complete) (lawful : algorithms.Lawful)
  (lawfulToo : others.Lawful)
include complete lawful lawfulToo

theorem onCycles_eq_of_lawful : graph.onCycles algorithms = graph.onCycles others :=
  (pairwise_onCycles complete lawful).eq_of_mem_iff (pairwise_onCycles complete lawfulToo)
    fun _ => (mem_onCycles complete lawful).trans (mem_onCycles complete lawfulToo).symm

/-- What is decided of a graph is the same, whichever algorithms decide it. -/
theorem verifyAcyclicBy_eq_of_lawful :
    graph.verifyAcyclicBy algorithms = graph.verifyAcyclicBy others := by
  by_cases cyclic : ∃ stack, TransGen graph.DependsOn stack stack
  · obtain ⟨stack, cycle⟩ := cyclic
    rw [verifyAcyclicBy_eq_error complete lawful cycle,
      verifyAcyclicBy_eq_error complete lawfulToo cycle,
      onCycles_eq_of_lawful complete lawful lawfulToo]
  · have acyclic := not_exists.mp cyclic
    rw [(verifyAcyclicBy_eq_ok complete lawful).mpr acyclic,
      (verifyAcyclicBy_eq_ok complete lawfulToo).mpr acyclic]

theorem wavesBy_eq_of_lawful : graph.wavesBy algorithms = graph.wavesBy others := by
  rw [wavesBy, wavesBy, verifyAcyclicBy_eq_of_lawful complete lawful lawfulToo]

end Alike

end StackSynth.DeployGraph
