/-
This file finds routes with operations that may fault. The ways up and down are cut off chains of
stacks by number: all but the last stack, or those before the place where two chains meet. A chain
that is cut starts with the stack that it was asked for, so it is not empty, and the place where
two chains meet is a place of the first. Both hold of whatever numbers a route is asked for, also
of those that no construct has.
-/

import StackSynth.Proofs.Guarded
import StackSynth.Proofs.Wiring.Direction

namespace StackSynth.Tree

open Guarded Outcome

variable {home consumer stack shared : NodeId} {nodes : List NodeId}

/-- A chain without its last stack. -/
def guardedDropLast (chain : List NodeId) : Guarded (List NodeId) := do
  firsts (← less chain.length 1) chain

/-- The route from a chain of stacks to another one. -/
def guardedRouteAlong (home : NodeId) (homeChain consumerChain : List NodeId) :
    Guarded (Except ResolveError Route) :=
  match homeChain.getLast?, consumerChain.getLast? with
  | some homeTop, some consumerTop =>
    if homeTop ≠ consumerTop then do
      let up ← guardedDropLast homeChain
      let down ← guardedDropLast consumerChain
      return .ok ⟨.crossTopLevelSibling, up, some (homeTop, consumerTop), down.reverse⟩
    else
      match homeChain.findIdx? (fun stack => consumerChain.contains stack) with
      | none => return .error (.unknownConstruct home)
      | some common => do
        let shared ← known homeChain[common]?
        let up ← firsts common homeChain
        let down := (consumerChain.takeWhile (· ≠ shared)).reverse
        return .ok ⟨.within up down, up, none, down⟩
  | _, _ => return .error (.unknownConstruct home)

/-- The route of a value from its home stack to a consuming stack. -/
def guardedRoute (tree : Tree) (home consumer : NodeId) : Guarded (Except ResolveError Route) :=
  if home = consumer then return .ok .stay
  else
    match tree.requireChain home with
    | .error cause => return .error cause
    | .ok homeChain =>
      match tree.requireChain consumer with
      | .error cause => return .error cause
      | .ok consumerChain => guardedRouteAlong home homeChain consumerChain

/-! ### None of them faults -/

theorem guardedDropLast_eq {chain : List NodeId} (inhabited : chain ≠ []) :
    guardedDropLast chain = .ok chain.dropLast := by
  have notEmpty : 1 ≤ chain.length := List.length_pos_iff.mpr inhabited
  rw [guardedDropLast, less_of_le notEmpty, ok_bind, firsts_of_le (Nat.sub_le _ _),
    List.dropLast_eq_take]

/-- Where something is found first, it stands at its place, and the others before it. -/
theorem findIdx?_of_find? {looksFor : NodeId → Bool}
    (found : nodes.find? looksFor = some shared) :
    ∃ place, nodes.findIdx? looksFor = some place ∧ nodes[place]? = some shared ∧
      place ≤ nodes.length ∧ nodes.take place = nodes.takeWhile (· ≠ shared) := by
  obtain ⟨after, split⟩ := eq_takeWhile_append (List.mem_of_find?_eq_some found)
  have others := find?_before found
  have isFound := List.find?_some found
  generalize nodes.takeWhile (· ≠ shared) = before at split others
  subst split
  refine ⟨before.length, ?_, by simp, by simp, by simp⟩
  rw [List.findIdx?_append, List.findIdx?_eq_none_iff.mpr others, List.findIdx?_cons, isFound]
  simp

/-- No operation faults on the way to a route, whatever it is asked for. -/
theorem guardedRoute_eq (tree : Tree) (home consumer : NodeId) :
    tree.guardedRoute home consumer = .ok (tree.route home consumer) := by
  rw [guardedRoute, route]
  by_cases same : home = consumer
  · rw [if_pos same, if_pos same]
    rfl
  rw [if_neg same, if_neg same]
  rcases homeRequired : tree.requireChain home with cause | homeChain
  · rfl
  rcases consumerRequired : tree.requireChain consumer with cause | consumerChain
  · rfl
  obtain ⟨_, above, fromHome⟩ := requireChain_eq_ok homeRequired
  obtain ⟨_, aboveToo, fromConsumer⟩ := requireChain_eq_ok consumerRequired
  have cutHome : guardedDropLast homeChain = .ok homeChain.dropLast :=
    guardedDropLast_eq (fromHome ▸ List.cons_ne_nil _ _)
  have cutConsumer : guardedDropLast consumerChain = .ok consumerChain.dropLast :=
    guardedDropLast_eq (fromConsumer ▸ List.cons_ne_nil _ _)
  simp only [guardedRouteAlong, cutHome, cutConsumer, ok_bind]
  rcases homeChain.getLast? with _ | homeTop
  · rfl
  rcases consumerChain.getLast? with _ | consumerTop
  · rfl
  by_cases apart : homeTop ≠ consumerTop
  · simp only [if_pos apart]
    rfl
  · simp only [if_neg apart]
    cases found : homeChain.find? (fun stack => consumerChain.contains stack) with
    | none =>
      have nowhere : homeChain.findIdx? (fun stack => consumerChain.contains stack) = none :=
        List.findIdx?_eq_none_iff.mpr fun stack member =>
          Bool.eq_false_iff.mpr (List.find?_eq_none.mp found stack member)
      simp only [nowhere]
      rfl
    | some shared =>
      obtain ⟨place, atPlace, isShared, within, before⟩ := findIdx?_of_find? found
      simp only [atPlace, isShared, known, ok_bind, firsts_of_le within, before]
      rfl

end StackSynth.Tree
