/-
This file says what a graph holds after dependencies were added one by one. The list of a stack
keeps each dependency at the place where it was first met, a stack that was added under a name keeps
it, and whatever is depended on is in the graph.
-/

import StackSynth.Proofs.Deployment.Cycles
import StackSynth.Proofs.Firsts

namespace StackSynth

namespace DeployGraph

variable {graph : DeployGraph} {stack dependent dependency : NodeId} {name : Option String}

/-! ### One dependency -/

theorem dependenciesOf_connect_self (graph : DeployGraph) (dependent dependency : NodeId) :
    (graph.connect dependent dependency).dependenciesOf dependent =
      graph.dependenciesOf dependent ++ [dependency] := by
  rw [dependenciesOf, connect, SortedMap.get?_insert_self, Option.getD_some]

theorem dependenciesOf_connect_of_ne (apart : stack ≠ dependent) :
    (graph.connect dependent dependency).dependenciesOf stack = graph.dependenciesOf stack := by
  rw [dependenciesOf, connect, SortedMap.get?_insert_of_ne apart, dependenciesOf]

/-- A dependency is listed behind the others, unless it is there already. -/
theorem dependenciesOf_addDependency_append (graph : DeployGraph)
    (dependent dependency stack : NodeId) :
    (graph.addDependency dependent dependency).1.dependenciesOf stack =
      graph.dependenciesOf stack ++
        if stack = dependent ∧ dependency ∉ graph.dependenciesOf dependent then [dependency]
        else [] := by
  rw [addDependency]
  split
  · rename_i isOld
    rw [if_neg (fun both => both.2 (List.contains_iff_mem.mp isOld)), List.append_nil]
  · rename_i isNew
    by_cases here : stack = dependent
    · subst here
      rw [if_pos ⟨rfl, fun isOld => isNew (List.contains_iff_mem.mpr isOld)⟩]
      exact dependenciesOf_connect_self _ stack dependency
    · rw [if_neg (fun both => here both.1), List.append_nil]
      exact dependenciesOf_connect_of_ne here

theorem dependenciesOf_addDependency_of_ne (apart : stack ≠ dependent) :
    (graph.addDependency dependent dependency).1.dependenciesOf stack =
      graph.dependenciesOf stack := by
  rw [dependenciesOf_addDependency_append, if_neg (fun both => apart both.1), List.append_nil]

theorem dependenciesOf_addDependency (graph : DeployGraph) (dependent dependency : NodeId)
    {met : List NodeId} (known : graph.dependenciesOf dependent = met.eraseDups) :
    (graph.addDependency dependent dependency).1.dependenciesOf dependent =
      (met ++ [dependency]).eraseDups := by
  rw [dependenciesOf_addDependency_append, known, eraseDups_concat]
  by_cases isOld : dependency ∈ met
  · rw [if_neg (fun both => both.2 (List.mem_eraseDups.mpr isOld)), List.append_nil,
      if_pos (List.contains_iff_mem.mpr isOld)]
  · rw [if_pos ⟨rfl, fun early => isOld (List.mem_eraseDups.mp early)⟩,
      if_neg (fun early => isOld (List.contains_iff_mem.mp early))]

theorem dependsOn_addDependency {other : NodeId} :
    (graph.addDependency dependent dependency).1.DependsOn stack other ↔
      graph.DependsOn stack other ∨ (stack, other) = (dependent, dependency) := by
  rw [DependsOn, dependenciesOf_addDependency_append, List.mem_append, DependsOn]
  constructor
  · rintro (known | added)
    · exact .inl known
    · split at added
      · rename_i isNew
        exact .inr (Prod.ext isNew.1 (List.mem_singleton.mp added))
      · cases added
  · rintro (known | same)
    · exact .inl known
    · obtain ⟨rfl, rfl⟩ := Prod.mk.inj same
      by_cases known : other ∈ graph.dependenciesOf stack
      · exact .inl known
      · exact .inr (by rw [if_pos ⟨rfl, known⟩]; exact List.mem_cons_self)

theorem addDependency_of_dependsOn (depends : graph.DependsOn dependent dependency) :
    (graph.addDependency dependent dependency).1 = graph := by
  rw [addDependency, if_pos (List.contains_iff_mem.mpr depends)]

/-- A stack that is in the graph stays in it under its name. -/
theorem named_insertIfNew {names : SortedMap NodeId (Option String)}
    (named : names.get? stack = some name) (other : NodeId) :
    (names.insertIfNew other none).get? stack = some name := by
  by_cases same : stack = other
  · subst same
    rw [SortedMap.get?_insertIfNew_self, named, Option.getD_some]
  · rw [SortedMap.get?_insertIfNew_of_ne same, named]

theorem named_addDependency (named : graph.stackNames.get? stack = some name) :
    (graph.addDependency dependent dependency).1.stackNames.get? stack = some name := by
  rw [addDependency]
  split
  · exact named
  · exact named_insertIfNew (named_insertIfNew named dependency) dependent

theorem contains_withStack {other : NodeId} :
    (graph.withStack stack name).stackNames.contains other = true ↔
      other = stack ∨ graph.stackNames.contains other = true :=
  SortedMap.contains_insertIfNew

theorem complete_empty : empty.Complete where
  once := .nil
  nodes := iff_of_false List.not_mem_nil Bool.false_ne_true
  arrowsOnce := .nil
  arrows := iff_of_false List.not_mem_nil List.not_mem_nil
  within never := absurd never List.not_mem_nil

namespace Complete

variable (complete : graph.Complete)
include complete

theorem withStack (stack : NodeId) (name : Option String) :
    (graph.withStack stack name).Complete := by
  have arrows : (graph.withStack stack name).digraph.arrows = graph.digraph.arrows := by
    rw [DeployGraph.withStack]
    dsimp only
    split <;> rfl
  have nodes : (graph.withStack stack name).digraph.nodes =
      graph.digraph.nodes ++ if graph.stackNames.contains stack then [] else [stack] := by
    rw [DeployGraph.withStack]
    dsimp only
    split
    · exact (List.append_nil _).symm
    · rfl
  constructor
  case once =>
    rw [nodes]
    split
    · rw [List.append_nil]
      exact complete.once
    · rename_i isNew
      refine List.nodup_append.mpr ⟨complete.once, List.nodup_singleton stack, ?_⟩
      rintro old isOld _ isLast rfl
      rw [List.mem_singleton.mp isLast] at isOld
      exact isNew (complete.nodes.mp isOld)
  case nodes =>
    intro other
    rw [nodes, List.mem_append, complete.nodes, contains_withStack]
    split
    · rename_i known
      exact ⟨fun either => .inr (either.resolve_right List.not_mem_nil),
        fun either => .inl (either.elim (fun same => same ▸ known) id)⟩
    · rw [List.mem_singleton, or_comm]
  case arrowsOnce => exact arrows ▸ complete.arrowsOnce
  case arrows =>
    intro dependent dependency
    rw [StackDigraph.Arrow, arrows]
    exact complete.arrows
  case within =>
    intro dependent dependency depends
    have known := complete.within depends
    exact ⟨contains_withStack.mpr (.inr known.1), contains_withStack.mpr (.inr known.2)⟩

/-- An arrow goes with every dependency. -/
theorem connect (knownDependent : graph.stackNames.contains dependent = true)
    (knownDependency : graph.stackNames.contains dependency = true)
    (isNew : dependency ∉ graph.dependenciesOf dependent) :
    (graph.connect dependent dependency).Complete := by
  have depends : ∀ {stack other : NodeId}, (graph.connect dependent dependency).DependsOn stack
      other ↔ graph.DependsOn stack other ∨ (other, stack) = (dependency, dependent) := by
    intro stack other
    by_cases here : stack = dependent
    · subst here
      rw [DependsOn, dependenciesOf_connect_self, List.mem_append, List.mem_singleton, DependsOn,
        Prod.mk.injEq, and_iff_left rfl]
    · rw [DependsOn, dependenciesOf_connect_of_ne here]
      exact (or_iff_left fun same => here (Prod.mk.inj same).2).symm
  constructor
  case once => exact complete.once
  case nodes => exact complete.nodes
  case arrowsOnce =>
    refine List.nodup_append.mpr ⟨complete.arrowsOnce, List.nodup_singleton _, ?_⟩
    rintro old isOld _ isLast rfl
    rw [List.mem_singleton.mp isLast] at isOld
    exact isNew (complete.arrows.mp isOld)
  case arrows =>
    intro stack other
    rw [depends, ← complete.arrows]
    exact List.mem_append.trans (or_congr_right List.mem_singleton)
  case within =>
    intro stack other isDependency
    rcases depends.mp isDependency with known | same
    · exact complete.within known
    · cases same
      exact ⟨knownDependent, knownDependency⟩

theorem addDependency : (graph.addDependency dependent dependency).1.Complete := by
  rw [DeployGraph.addDependency]
  split
  · exact complete
  · rename_i isNew
    refine ((complete.withStack dependency none).withStack dependent none).connect ?_ ?_ ?_
    · exact contains_withStack.mpr (.inl rfl)
    · exact contains_withStack.mpr (.inr (contains_withStack.mpr (.inl rfl)))
    · exact fun isOld => isNew (List.contains_iff_mem.mpr isOld)

end Complete

/-! ### Any number of dependencies -/

/-- The graph with dependencies, each a stack and the one it depends on. -/
def addAll (graph : DeployGraph) (pairs : List (NodeId × NodeId)) : DeployGraph :=
  pairs.foldl (fun graph pair => (graph.addDependency pair.1 pair.2).1) graph

/-- The dependencies of one stack among those of all. -/
def among (stack : NodeId) (pairs : List (NodeId × NodeId)) : List NodeId :=
  (pairs.filter (fun pair => pair.1 = stack)).map (·.2)

theorem among_append (stack : NodeId) (front back : List (NodeId × NodeId)) :
    among stack (front ++ back) = among stack front ++ among stack back := by
  rw [among, List.filter_append, List.map_append, ← among, ← among]

/-- A stack depends on what was added for it, in the order in which it was first met. -/
theorem dependenciesOf_addAll (stack : NodeId) (pairs : List (NodeId × NodeId)) :
    ∀ {graph : DeployGraph} {met : List NodeId}, graph.dependenciesOf stack = met.eraseDups →
      (graph.addAll pairs).dependenciesOf stack = (met ++ among stack pairs).eraseDups := by
  induction pairs with
  | nil =>
    intro graph met known
    rw [among, List.filter_nil, List.map_nil, List.append_nil]
    exact known
  | cons pair rest inductionHypothesis =>
    intro graph met known
    obtain ⟨dependent, dependency⟩ := pair
    rw [addAll, List.foldl_cons, ← addAll]
    by_cases here : dependent = stack
    · subst here
      rw [inductionHypothesis (dependenciesOf_addDependency graph dependent dependency known),
        List.append_assoc]
      simp [among]
    · have known : (graph.addDependency dependent dependency).1.dependenciesOf stack =
          met.eraseDups := (dependenciesOf_addDependency_of_ne (Ne.symm here)).trans known
      rw [inductionHypothesis known]
      simp [among, here]

/-- What every addition keeps, all of them keep. -/
theorem addAll_induction (holds : DeployGraph → Prop)
    (kept : ∀ graph dependent dependency, holds graph →
      holds (graph.addDependency dependent dependency).1)
    (pairs : List (NodeId × NodeId)) {graph} (held : holds graph) :
    holds (graph.addAll pairs) :=
  List.foldlRecOn pairs _ held fun graph before pair _ => kept graph pair.1 pair.2 before

theorem dependsOn_addAll {pairs : List (NodeId × NodeId)} {other : NodeId} :
    ∀ {graph : DeployGraph}, (graph.addAll pairs).DependsOn stack other ↔
      graph.DependsOn stack other ∨ (stack, other) ∈ pairs := by
  induction pairs with
  | nil => simp [addAll]
  | cons pair rest inductionHypothesis =>
    intro graph
    rw [addAll, List.foldl_cons, ← addAll, inductionHypothesis, dependsOn_addDependency,
      List.mem_cons, or_assoc]

/-- Dependencies that are there are not added. -/
theorem addAll_of_dependsOn {pairs : List (NodeId × NodeId)}
    (all : ∀ pair ∈ pairs, graph.DependsOn pair.1 pair.2) : graph.addAll pairs = graph := by
  refine List.foldlRecOn pairs (motive := (· = graph)) _ rfl fun current unchanged pair member => ?_
  rw [unchanged, addDependency_of_dependsOn (all pair member)]

theorem named_addAll (pairs : List (NodeId × NodeId))
    (named : graph.stackNames.get? stack = some name) :
    (graph.addAll pairs).stackNames.get? stack = some name :=
  addAll_induction (fun graph => graph.stackNames.get? stack = some name)
    (fun _ _ _ named => named_addDependency named) pairs named

theorem Complete.addAll (complete : graph.Complete) (pairs : List (NodeId × NodeId)) :
    (graph.addAll pairs).Complete :=
  addAll_induction Complete (fun _ _ _ complete => complete.addDependency) pairs complete

end DeployGraph

end StackSynth
