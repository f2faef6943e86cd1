/-
This file proves what a graph answers after any calls. Its stacks are those that some call mentions
and its dependencies those that some call adds. Where these have no cycle the waves are the levels
of dependencies; where they have one, every question about the order is answered with the stacks on
cycles and no others.
-/

import StackSynth.Proofs.Deployment.Accumulation

namespace StackSynth

open Relation

/-- A call that registers a stack or a dependency. -/
inductive GraphCall where
  | register (stack : NodeId) (name : String)
  | depend (dependent dependency : NodeId)

namespace GraphCall

/-- The stacks that a call is about. -/
def subjects : GraphCall → List NodeId
  | .register stack _ => [stack]
  | .depend dependent dependency => [dependent, dependency]

/-- The dependency that a call adds. -/
def pair? : GraphCall → Option (NodeId × NodeId)
  | .register _ _ => none
  | .depend dependent dependency => some (dependent, dependency)

/-- The dependencies that calls add, in their order. -/
def pairs (calls : List GraphCall) : List (NodeId × NodeId) := calls.filterMap pair?

/-- Some call is about a stack. -/
def Mentions (calls : List GraphCall) (stack : NodeId) : Prop :=
  ∃ call ∈ calls, stack ∈ call.subjects

/-- Some call adds a dependency. -/
def Needs (calls : List GraphCall) (dependent dependency : NodeId) : Prop :=
  (dependent, dependency) ∈ pairs calls

/-- No stack needs itself, directly or through others. -/
def Acyclic (calls : List GraphCall) : Prop := ∀ stack, ¬TransGen (Needs calls) stack stack

/-- The name that a call comes with. -/
def name? : GraphCall → Option String
  | .register _ name => some name
  | .depend _ _ => none

/-- The name that a stack goes by: the one that the first call about it registers it under, and its
number if that call registers nothing. -/
def calledName (calls : List GraphCall) (stack : NodeId) : String :=
  ((calls.find? fun call => stack ∈ call.subjects).bind name?).getD (nodeName stack)

/-- The levels of dependencies: waves in which every stack is once, in the first if it needs no
other, and else right behind the last wave with one that it needs. -/
structure Deploys (calls : List GraphCall) (waves : List (List NodeId)) : Prop where
  once : waves.flatten.Nodup
  every : ∀ stack, stack ∈ waves.flatten ↔ Mentions calls stack
  inhabited : ∀ wave ∈ waves, wave ≠ []
  ascending : ∀ wave ∈ waves, wave.Pairwise (· < ·)
  first : ∀ stack, StackDigraph.OnLevel waves 0 stack ↔
    Mentions calls stack ∧ ∀ dependency, ¬Needs calls stack dependency
  behind : ∀ stack index, StackDigraph.OnLevel waves (index + 1) stack ↔
    (∃ dependency, Needs calls stack dependency ∧ StackDigraph.OnLevel waves index dependency) ∧
      ∀ dependency, Needs calls stack dependency →
        ∃ earlier ≤ index, StackDigraph.OnLevel waves earlier dependency

end GraphCall

namespace DeployGraph

open GraphCall

/-- The graph after one more call. -/
def call (graph : DeployGraph) : GraphCall → DeployGraph
  | .register stack name => graph.addStack stack name
  | .depend dependent dependency => (graph.addDependency dependent dependency).1

/-- The graph that calls make. -/
def ofCalls (calls : List GraphCall) : DeployGraph := calls.foldl call empty

/-- A graph has exactly what calls are about. -/
structure Registers (graph : DeployGraph) (calls : List GraphCall) : Prop where
  complete : graph.Complete
  mentioned : ∀ stack, graph.stackNames.contains stack = true ↔ Mentions calls stack
  dependencies : ∀ stack, graph.dependenciesOf stack = (among stack (pairs calls)).eraseDups

variable {graph : DeployGraph} {calls : List GraphCall} {algorithms : GraphAlgorithms}
  {waves : List (List NodeId)} {stack dependent dependency : NodeId}

theorem mentions_concat {call : GraphCall} :
    Mentions (calls ++ [call]) stack ↔ Mentions calls stack ∨ stack ∈ call.subjects := by
  simp [Mentions, or_and_right, exists_or]

theorem pairs_concat (calls : List GraphCall) (call : GraphCall) :
    pairs (calls ++ [call]) = pairs calls ++ call.pair?.toList := by
  rw [pairs, List.filterMap_append, ← pairs]
  cases call <;> rfl

/-- The stacks of a dependency are in the graph, whether or not the dependency is new. -/
theorem contains_addDependency (complete : graph.Complete) :
    (graph.addDependency dependent dependency).1.stackNames.contains stack = true ↔
      graph.stackNames.contains stack = true ∨ stack ∈ [dependent, dependency] := by
  have either : stack ∈ [dependent, dependency] ↔ stack = dependent ∨ stack = dependency := by simp
  rw [addDependency, either]
  split
  · rename_i isOld
    have known := complete.within (List.contains_iff_mem.mp isOld)
    refine (or_iff_left_of_imp ?_).symm
    rintro (rfl | rfl)
    · exact known.1
    · exact known.2
  · refine contains_withStack.trans ((or_congr_right contains_withStack).trans ?_)
    tauto

namespace Registers

theorem empty : DeployGraph.empty.Registers [] where
  complete := complete_empty
  mentioned _ := by
    refine iff_of_false Bool.false_ne_true ?_
    rintro ⟨call, member, _⟩
    cases member
  dependencies _ := rfl

/-- A call adds what it is about. -/
theorem call (registers : graph.Registers calls) (call : GraphCall) :
    (graph.call call).Registers (calls ++ [call]) := by
  cases call with
  | register stack name =>
    constructor
    case complete => exact registers.complete.withStack stack name
    case mentioned =>
      intro other
      rw [mentions_concat, ← registers.mentioned, or_comm]
      exact contains_withStack.trans (or_congr_left List.mem_singleton.symm)
    case dependencies =>
      intro other
      rw [pairs_concat, pair?, Option.toList_none, List.append_nil]
      exact registers.dependencies other
  | depend dependent dependency =>
    constructor
    case complete => exact registers.complete.addDependency
    case mentioned =>
      intro other
      rw [mentions_concat, ← registers.mentioned]
      exact contains_addDependency registers.complete
    case dependencies =>
      intro other
      have added := dependenciesOf_addAll other [(dependent, dependency)]
        (registers.dependencies other)
      rw [pairs_concat, among_append]
      exact added

end Registers

/-- After any calls a graph has exactly what they are about. -/
theorem registers_ofCalls (calls : List GraphCall) : (ofCalls calls).Registers calls := by
  induction calls using List.reverseRecOn with
  | nil => exact .empty
  | append_singleton calls call inductionHypothesis =>
    rw [ofCalls, List.foldl_concat]
    exact inductionHypothesis.call call

namespace Registers

variable (registers : graph.Registers calls)
include registers

theorem dependsOn_iff :
    graph.DependsOn dependent dependency ↔ Needs calls dependent dependency := by
  rw [DependsOn, registers.dependencies, List.mem_eraseDups, Needs]
  simp [among]

theorem transGen_iff : TransGen graph.DependsOn dependent dependency ↔
    TransGen (Needs calls) dependent dependency := by
  have same : graph.DependsOn = Needs calls := by
    funext dependent dependency
    exact propext registers.dependsOn_iff
  rw [same]

theorem acyclic_iff : (∀ stack, ¬TransGen graph.DependsOn stack stack) ↔ Acyclic calls :=
  forall_congr' fun _ => not_congr registers.transGen_iff

theorem arrow_iff : graph.digraph.Arrow dependency dependent ↔ Needs calls dependent dependency :=
  registers.complete.arrows.trans registers.dependsOn_iff

/-- There are as many arrows as different dependencies. -/
theorem edgeCount : graph.edgeCount = (pairs calls).toFinset.card := by
  have once : (graph.digraph.arrows.map Prod.swap).Nodup :=
    registers.complete.arrowsOnce.map Prod.swap_injective
  have same : (graph.digraph.arrows.map Prod.swap).toFinset = (pairs calls).toFinset := by
    ext ⟨dependent, dependency⟩
    rw [List.mem_toFinset, List.mem_toFinset, List.mem_map]
    refine Iff.trans ?_ registers.arrow_iff
    constructor
    · rintro ⟨arrow, member, isSwapped⟩
      cases isSwapped
      exact member
    · exact fun member => ⟨_, member, rfl⟩
  rw [DeployGraph.edgeCount, ← same, List.toFinset_card_of_nodup once, List.length_map]

/-- The waves are the levels of dependencies. -/
theorem deploys (found : graph.wavesBy algorithms = .ok waves) : Deploys calls waves := by
  have proper := registers.complete.proper
  have isFound := wavesBy_eq_ok.mp found
  have levelled := StackDigraph.levelled_of_levels proper isFound
  have isNode : ∀ {stack}, stack ∈ graph.digraph.nodes ↔ Mentions calls stack :=
    registers.complete.nodes.trans (registers.mentioned _)
  constructor
  case once => exact levelled.nodup_flatten
  case every => exact fun _ => levelled.mem_flatten.trans isNode
  case inhabited => exact levelled.ne_nil
  case ascending => exact levelled.pairwise
  case first =>
    intro stack
    simp only [StackDigraph.onLevel_zero_iff proper isFound, isNode, registers.arrow_iff]
  case behind =>
    intro stack index
    simp only [StackDigraph.onLevel_succ_iff proper isFound, registers.arrow_iff]

end Registers

/-! ### Names -/

theorem get?_withStack (graph : DeployGraph) (added : NodeId) (name : Option String)
    (stack : NodeId) : (graph.withStack added name).stackNames.get? stack =
      if stack = added then some ((graph.stackNames.get? stack).getD name)
      else graph.stackNames.get? stack := by
  split
  · rename_i here
    rw [here]
    exact SortedMap.get?_insertIfNew_self _ _ _
  · rename_i elsewhere
    exact SortedMap.get?_insertIfNew_of_ne elsewhere

/-- A call puts a stack that it is about into the graph under the name it comes with, unless the
stack is there. -/
theorem get?_call (complete : graph.Complete) (call : GraphCall) (stack : NodeId) :
    (graph.call call).stackNames.get? stack =
      if stack ∈ call.subjects then some ((graph.stackNames.get? stack).getD call.name?)
      else graph.stackNames.get? stack := by
  cases call with
  | register other name =>
    simp only [subjects, List.mem_singleton]
    exact get?_withStack graph other (some name) stack
  | depend dependent dependency =>
    simp only [subjects, List.mem_pair]
    rw [DeployGraph.call, addDependency]
    split
    · rename_i isOld
      obtain ⟨knownDependent, knownDependency⟩ :=
        complete.within (List.contains_iff_mem.mp isOld)
      split
      · rename_i subject
        have known : graph.stackNames.contains stack = true := by
          rcases subject with rfl | rfl
          · exact knownDependent
          · exact knownDependency
        obtain ⟨its, found⟩ := SortedMap.contains_iff.mp known
        rw [found, Option.getD_some]
      · rfl
    · show (((graph.withStack dependency none).withStack dependent none)).stackNames.get? stack = _
      rw [get?_withStack, get?_withStack]
      by_cases isDependent : stack = dependent
      · subst isDependent
        by_cases isDependency : stack = dependency <;> simp [isDependency, GraphCall.name?]
      · by_cases isDependency : stack = dependency <;>
          simp [isDependent, isDependency, GraphCall.name?]

/-- The first call about a stack decides its name. -/
theorem get?_ofCalls (calls : List GraphCall) (stack : NodeId) :
    (ofCalls calls).stackNames.get? stack =
      (calls.find? (fun call => stack ∈ call.subjects)).map GraphCall.name? := by
  induction calls using List.reverseRecOn with
  | nil => rfl
  | append_singleton calls call inductionHypothesis =>
    rw [ofCalls, List.foldl_concat, ← ofCalls, get?_call (registers_ofCalls calls).complete,
      inductionHypothesis, List.find?_append]
    cases calls.find? (fun call => stack ∈ call.subjects) with
    | some earlier => simp
    | none => by_cases subject : stack ∈ call.subjects <;> simp [subject]

theorem name_ofCalls (calls : List GraphCall) (stack : NodeId) :
    (ofCalls calls).name stack = calledName calls stack := by
  rw [DeployGraph.name, get?_ofCalls, calledName]
  cases calls.find? (fun call => stack ∈ call.subjects) with
  | none => rfl
  | some call => cases call <;> rfl

/-! ### Answers -/

/-- After any calls there are waves and an order exactly if the dependencies have no cycle. The
waves are the levels of dependencies and the order is that of the waves; each dependency counts
once, and a stack lists those it needs in the order in which they were first added. -/
theorem waves_are_levels (lawful : algorithms.Lawful) (calls : List GraphCall) :
    ((∃ waves, (ofCalls calls).wavesBy algorithms = .ok waves) ↔ Acyclic calls) ∧
    ((∃ order, (ofCalls calls).orderBy algorithms = .ok order) ↔ Acyclic calls) ∧
    (∀ waves, (ofCalls calls).wavesBy algorithms = .ok waves →
      Deploys calls waves ∧ (ofCalls calls).orderBy algorithms = .ok waves.flatten) ∧
    (ofCalls calls).edgeCount = (pairs calls).toFinset.card ∧
    ∀ stack, (ofCalls calls).dependenciesOf stack = (among stack (pairs calls)).eraseDups := by
  have registers := registers_ofCalls calls
  have exist : (∃ waves, (ofCalls calls).wavesBy algorithms = .ok waves) ↔ Acyclic calls :=
    (exists_wavesBy_iff registers.complete).trans registers.acyclic_iff
  have accepted : (ofCalls calls).verifyAcyclicBy algorithms = .ok () ↔ Acyclic calls :=
    (verifyAcyclicBy_eq_ok registers.complete lawful).trans registers.acyclic_iff
  refine ⟨exist, ?_, ?_, registers.edgeCount, registers.dependencies⟩
  · constructor
    · rintro ⟨order, ordered⟩
      obtain ⟨_, verified, _⟩ := Outcome.bind_eq_ok.mp ordered
      exact accepted.mp verified
    · intro acyclic
      obtain ⟨waves, found⟩ := exist.mpr acyclic
      exact ⟨_, orderBy_eq_ok (accepted.mpr acyclic) found⟩
  · intro waves found
    have acyclic := exist.mp ⟨waves, found⟩
    exact ⟨registers.deploys found, orderBy_eq_ok (accepted.mpr acyclic) found⟩

/-- Calls that add one dependency twice, and one of a stack that has no name. -/
def quartet : List GraphCall :=
  [.register 1 "Shared", .register 3 "Worker", .register 2 "Api", .depend 2 1, .depend 3 1,
    .depend 2 1, .depend 4 2]

theorem quartet_has_levels :
    Deploys quartet [[1], [2, 3], [4]] ∧
      (ofCalls quartet).orderBy .plain = .ok [1, 2, 3, 4] ∧ (ofCalls quartet).edgeCount = 3 := by
  have levels := waves_are_levels GraphAlgorithms.lawful_plain quartet
  have found : (ofCalls quartet).wavesBy .plain = .ok [[1], [2, 3], [4]] :=
    wavesBy_eq_ok.mpr (by decide +kernel)
  obtain ⟨deploys, ordered⟩ := levels.2.2.1 _ found
  exact ⟨deploys, ordered, levels.2.2.2.1.trans (by decide)⟩

/-- After any calls the graph is accepted exactly if the dependencies have no cycle. Otherwise all
that asks for an order fails with the names of the stacks on cycles, in the order of creation, where
a stack has the name that the first call about it registers it under. -/
theorem cycles_are_named (lawful : algorithms.Lawful) (calls : List GraphCall) :
    ((ofCalls calls).verifyAcyclicBy algorithms = .ok () ↔ Acyclic calls) ∧
    (∀ stack, (ofCalls calls).name stack = calledName calls stack) ∧
    (¬Acyclic calls → ∃ members : List NodeId, members.Pairwise (· < ·) ∧
      (∀ stack, stack ∈ members ↔ TransGen (Needs calls) stack stack) ∧
      (ofCalls calls).verifyAcyclicBy algorithms =
        .error (.cycle (members.map (calledName calls))) ∧
      (ofCalls calls).wavesBy algorithms = .error (.cycle (members.map (calledName calls))) ∧
      (ofCalls calls).orderBy algorithms = .error (.cycle (members.map (calledName calls)))) := by
  have registers := registers_ofCalls calls
  refine ⟨(verifyAcyclicBy_eq_ok registers.complete lawful).trans registers.acyclic_iff,
    name_ofCalls calls, fun cyclic => ?_⟩
  obtain ⟨stack, cycle⟩ : ∃ stack, TransGen (ofCalls calls).DependsOn stack stack := by
    simpa only [← registers.acyclic_iff, not_forall, not_not] using cyclic
  have refused := verifyAcyclicBy_eq_error registers.complete lawful cycle
  rw [funext (name_ofCalls calls)] at refused
  refine ⟨_, pairwise_onCycles registers.complete lawful, fun stack => ?_, refused,
    wavesBy_eq_error registers.complete cycle refused, orderBy_eq_error refused⟩
  exact (mem_onCycles registers.complete lawful).trans registers.transGen_iff

/-- Calls that make a cycle, with a stack that depends on it and one on which it depends, and a
stack that depends on itself. -/
def ring : List GraphCall :=
  [.register 1 "S1", .register 2 "S2", .register 3 "S3", .register 4 "Above", .register 5 "Below",
    .depend 1 2, .depend 2 3, .depend 3 1, .depend 4 1, .depend 2 5,
    .depend 6 6]

/-- The stacks of the cycle and the one that depends on itself are named, the last of them by its
number. -/
theorem ring_is_named :
    (∀ stack, stack ∈ [1, 2, 3, 6] ↔ TransGen (Needs ring) stack stack) ∧
      (ofCalls ring).verifyAcyclicBy .plain = .error (.cycle ["S1", "S2", "S3", "#6"]) ∧
      (ofCalls ring).wavesBy .plain = .error (.cycle ["S1", "S2", "S3", "#6"]) ∧
      (ofCalls ring).orderBy .plain = .error (.cycle ["S1", "S2", "S3", "#6"]) ∧
      (DeployError.cycle ["S1", "S2", "S3", "#6"]).message =
        "dependency cycle between stacks: S1 -> S2 -> S3 -> #6" := by
  have loop : Needs ring 6 6 := by
    rw [Needs]
    decide
  obtain ⟨members, ascending, onCycle, refused, noWaves, noOrder⟩ :=
    (cycles_are_named GraphAlgorithms.lawful_plain ring).2.2 fun acyclic =>
      acyclic 6 (.single loop)
  -- the ascending list of the stacks on cycles is the one that the plain algorithms find
  have registers := registers_ofCalls ring
  have found : (ofCalls ring).onCycles .plain = [1, 2, 3, 6] := by decide +kernel
  have same : members = [1, 2, 3, 6] := by
    rw [← found]
    refine ascending.eq_of_mem_iff
      (pairwise_onCycles registers.complete GraphAlgorithms.lawful_plain) fun stack => ?_
    rw [onCycle, mem_onCycles registers.complete GraphAlgorithms.lawful_plain,
      registers.transGen_iff]
  have named : members.map (calledName ring) = ["S1", "S2", "S3", "#6"] := by
    rw [same]
    decide +kernel
  rw [named] at refused noWaves noOrder
  exact ⟨same ▸ onCycle, refused, noWaves, noOrder, by decide +kernel⟩

end DeployGraph

end StackSynth
