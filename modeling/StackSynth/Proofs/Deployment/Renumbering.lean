/-
This file compares graphs of the same stacks under different numbers. Additions of the same stacks
and dependencies leave them the same, each stack depends on the same ones in the same order, and so
one has a cycle exactly if the other does.
-/

import Mathlib.Logic.Equiv.Defs
import StackSynth.Proofs.Concurrence
import StackSynth.Proofs.Deployment.Accumulation

namespace StackSynth.DeployGraph

open Outcome Relation

/-- Two graphs of the same stacks under other numbers. -/
structure Renumbers (number : NodeId ≃ NodeId) (first second : DeployGraph) : Prop where
  names : ∀ stack, second.stackNames.get? (number stack) = first.stackNames.get? stack
  dependencies : ∀ stack,
    second.dependenciesOf (number stack) = (first.dependenciesOf stack).map number

variable {number : NodeId ≃ NodeId} {first second : DeployGraph}

theorem renumbers_empty : empty.Renumbers number empty := ⟨fun _ => rfl, fun _ => rfl⟩

/-- Additions that respect what is there see the same there. -/
theorem get?_insertIfNew_renumber {ν : Type} {names namesToo : SortedMap NodeId ν}
    (same : ∀ key, namesToo.get? (number key) = names.get? key) (key : NodeId) (value : ν)
    (other : NodeId) :
    (namesToo.insertIfNew (number key) value).get? (number other) =
      (names.insertIfNew key value).get? other := by
  by_cases here : other = key
  · rw [here, SortedMap.get?_insertIfNew_self, SortedMap.get?_insertIfNew_self, same]
  · rw [SortedMap.get?_insertIfNew_of_ne here,
      SortedMap.get?_insertIfNew_of_ne (number.injective.ne here), same]

theorem mem_edges {graph : DeployGraph} {dependent dependency : NodeId} :
    (dependent, dependency) ∈ graph.edges ↔ graph.DependsOn dependent dependency := by
  rw [edges, List.mem_flatMap, DependsOn, dependenciesOf]
  constructor
  · rintro ⟨⟨stack, others⟩, listed, member⟩
    obtain ⟨other, isOther, same⟩ := List.mem_map.mp member
    cases same
    rw [SortedMap.mem_entries.mp listed]
    exact isOther
  · intro member
    cases found : graph.dependencies.get? dependent with
    | none =>
      rw [found] at member
      cases member
    | some others =>
      rw [found] at member
      exact ⟨_, SortedMap.mem_entries.mpr found, List.mem_map.mpr ⟨dependency, member, rfl⟩⟩

namespace Renumbers

variable (renumbers : first.Renumbers number second)
include renumbers

theorem addStack (stack : NodeId) (name : String) :
    (first.addStack stack name).Renumbers number (second.addStack (number stack) name) where
  names := get?_insertIfNew_renumber renumbers.names stack (some name)
  dependencies := renumbers.dependencies

theorem addDependency (dependent dependency : NodeId) :
    (first.addDependency dependent dependency).1.Renumbers number
      (second.addDependency (number dependent) (number dependency)).1 := by
  have isOld : (second.dependenciesOf (number dependent)).contains (number dependency) =
      (first.dependenciesOf dependent).contains dependency := by
    rw [Bool.eq_iff_iff, List.contains_iff_mem, List.contains_iff_mem, renumbers.dependencies,
      List.mem_map_of_injective number.injective]
  constructor
  case names =>
    rw [DeployGraph.addDependency, DeployGraph.addDependency, isOld]
    split
    · exact renumbers.names
    · exact get?_insertIfNew_renumber
        (get?_insertIfNew_renumber renumbers.names dependency none) dependent none
  case dependencies =>
    intro stack
    have isNew : (number stack = number dependent ∧
        number dependency ∉ second.dependenciesOf (number dependent)) ↔
        (stack = dependent ∧ dependency ∉ first.dependenciesOf dependent) := by
      rw [number.injective.eq_iff, renumbers.dependencies,
        List.mem_map_of_injective number.injective]
    rw [dependenciesOf_addDependency_append, dependenciesOf_addDependency_append,
      renumbers.dependencies, List.map_append]
    simp only [isNew, apply_ite (List.map number), List.map_singleton, List.map_nil]

/-! ### Cycles -/

theorem dependsOn {stack other : NodeId} :
    second.DependsOn (number stack) (number other) ↔ first.DependsOn stack other := by
  rw [DependsOn, DependsOn, renumbers.dependencies, List.mem_map_of_injective number.injective]

/-- One graph has a cycle exactly if the other does. -/
theorem verifyAcyclic (complete : first.Complete) (completeToo : second.Complete) :
    Concur (· = ·) first.verifyAcyclic second.verifyAcyclic := by
  refine .unit ?_
  rw [verifyAcyclic_eq_ok complete, verifyAcyclic_eq_ok completeToo]
  constructor
  · intro none stack cycle
    refine none (number.symm stack) (cycle.lift number.symm fun one other depends => ?_)
    refine renumbers.dependsOn.mp ?_
    rwa [number.apply_symm_apply, number.apply_symm_apply]
  · intro none stack cycle
    exact none (number stack)
      (cycle.lift number fun _ _ depends => renumbers.dependsOn.mpr depends)

end Renumbers

end StackSynth.DeployGraph
