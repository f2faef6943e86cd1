/-
This file tells what a preparation makes the top-level stacks depend on. A value makes one stack
depend on another only where its route goes across, which it does exactly if the top-level stacks
of its home and of its goal differ. The values that locate nested templates stay within their
top-level stack, so what remains are the references of the application.
-/

import StackSynth.Proofs.Deployment.Accumulation
import StackSynth.Proofs.Synthesis.Preparation

namespace StackSynth

open Outcome

/-! ### What wiring adds to the graph -/

/-- What a crossing adds: the importing stack depends on the exporting one. -/
def Crossing.dependency? : Crossing → Option (NodeId × NodeId)
  | .across exporter importer => some (importer, exporter)
  | _ => none

/-- The top-level stacks of the goal and of the home of a reference, if they differ. -/
def Tree.import? (tree : Tree) (reference : Reference) : Option (NodeId × NodeId) :=
  match tree.topLevelOf? reference.consumerStack, tree.topLevelOf? reference.producer.home with
  | some importer, some exporter =>
    if exporter = importer then none else some (importer, exporter)
  | _, _ => none

section Wiring

variable {tree : Tree} {wiring : Wiring}

theorem Wiring.graph_foldl_record (tree : Tree) (hops : List Hop) :
    ∀ wiring : Wiring, (hops.foldl (Wiring.record tree) wiring).graph =
      wiring.graph.addAll (hops.filterMap (·.crossing.dependency?)) := by
  induction hops with
  | nil => exact fun _ => rfl
  | cons hop rest inductionHypothesis =>
    intro wiring
    rw [List.foldl_cons, inductionHypothesis]
    obtain ⟨crossing, passage⟩ := hop
    cases crossing <;> rfl

/-- Of the borders of a route only that between top-level stacks adds to the graph. -/
theorem Route.filterMap_dependency? (route : Route) :
    route.crossings.filterMap Crossing.dependency? =
      route.across.toList.map (fun pair => (pair.2, pair.1)) := by
  have noneOut : (route.up.map Crossing.out).filterMap Crossing.dependency? = [] := by
    simp [List.filterMap_eq_nil_iff, Crossing.dependency?]
  have noneInto : (route.down.map Crossing.into).filterMap Crossing.dependency? = [] := by
    simp [List.filterMap_eq_nil_iff, Crossing.dependency?]
  rw [crossings, List.filterMap_append, List.filterMap_append, noneOut, noneInto,
    List.nil_append, List.append_nil]
  cases route.across <;> rfl

theorem Tree.dependencies_of_journey {route : Route} {passage final : Passage} {hops : List Hop}
    (travelled : tree.journey passage route.crossings = .ok (hops, final)) :
    hops.filterMap (·.crossing.dependency?) =
      route.across.toList.map (fun pair => (pair.2, pair.1)) := by
  rw [← route.filterMap_dependency?, ← crossings_journey travelled, List.filterMap_map]
  rfl

/-- A route within a top-level stack adds nothing, and any other one dependency. -/
theorem Tree.WellFormed.dependencies_of_delivery (wellFormed : tree.WellFormed)
    {reference : Reference} {delivery : Delivery}
    (delivered : tree.delivery reference.producer reference.consumerStack = .ok delivery) :
    delivery.hops.filterMap (·.crossing.dependency?) = (tree.import? reference).toList := by
  obtain ⟨route, found, _, travelled⟩ := Tree.delivery_eq_ok delivered
  have within : tree.topLevelOf? reference.producer.home =
      tree.topLevelOf? reference.consumerStack → tree.import? reference = none := by
    intro sameTop
    rw [Tree.import?, sameTop]
    cases tree.topLevelOf? reference.consumerStack with
    | none => rfl
    | some top => exact if_pos rfl
  rw [Tree.dependencies_of_journey travelled]
  cases Tree.spans_of_route found with
  | stay atHome =>
    rw [within (congrArg tree.topLevelOf? atHome)]
    rfl
  | @within up down above below shared homeCut goalCut _ =>
    have sameTop : tree.topLevelOf? reference.producer.home =
        tree.topLevelOf? reference.consumerStack := by
      by_cases same : reference.producer.home = reference.consumerStack
      · exact congrArg tree.topLevelOf? same
      · obtain ⟨isStackHome, isStackGoal⟩ := Tree.isStack_of_route found same
        have inHome : shared ∈ tree.stackChain reference.producer.home := by
          rw [homeCut]
          exact List.mem_append_right _ List.mem_cons_self
        have inGoal : shared ∈ tree.stackChain reference.consumerStack := by
          rw [goalCut]
          exact List.mem_append_right _ List.mem_cons_self
        exact (wellFormed.topLevelOf?_of_mem isStackHome inHome).symm.trans
          (wellFormed.topLevelOf?_of_mem isStackGoal inGoal)
    rw [within sameTop]
    rfl
  | @between up down exporter importer homeCut goalCut apart =>
    have homeTop := congrArg List.getLast? homeCut
    have goalTop := congrArg List.getLast? goalCut
    rw [List.getLast?_concat] at homeTop goalTop
    rw [Tree.import?, Tree.topLevelOf?, Tree.topLevelOf?, homeTop, goalTop]
    show [(importer, exporter)] =
      (if exporter = importer then none else some (importer, exporter)).toList
    rw [if_neg apart]
    rfl

/-- Wiring references makes the stacks that import depend on those that export. -/
theorem Tree.WellFormed.graph_wireAll (wellFormed : tree.WellFormed)
    {references : List Reference} :
    ∀ {wiring after : Wiring} {wired : List (Reference × Boundary)},
      wiring.wireAll tree references = .ok (wired, after) →
      after.graph = wiring.graph.addAll (references.filterMap tree.import?) := by
  induction references with
  | nil =>
    intro wiring after wired done
    cases done
    rfl
  | cons reference rest inductionHypothesis =>
    intro wiring after wired done
    obtain ⟨delivery, further, delivered, doneRest, _⟩ := Wiring.wireAll_cons_eq_ok done
    have entered : (wiring.enter tree (reference.leaf, reference.consumerStack) delivery).graph =
        wiring.graph.addAll (tree.import? reference).toList := by
      rw [← wellFormed.dependencies_of_delivery delivered]
      exact Wiring.graph_foldl_record tree delivery.hops wiring
    rw [inductionHypothesis doneRest, entered, DeployGraph.addAll, DeployGraph.addAll,
      ← List.foldl_append, ← DeployGraph.addAll]
    cases known : tree.import? reference with
    | none => rw [List.filterMap_cons_none known, Option.toList_none, List.nil_append]
    | some pair => rw [List.filterMap_cons_some known, Option.toList_some, List.singleton_append]

end Wiring

/-! ### The graph of a preparation -/

namespace Prepared

variable {app : Application} {bundler : Asset.Bundler} {tree : Tree}
  {prepared next started : Prepared} {stack : NodeId}

/-- The values that locate a template make no stack depend on another. -/
theorem graph_of_embed (wellFormed : tree.WellFormed) (isStack : tree.isStack stack = true)
    (turned : embed tree bundler prepared stack = .ok next) : next.graph = prepared.graph := by
  obtain ⟨_, top, parent, _, references, _, turn⟩ := turn_of_embed turned
  obtain ⟨_, _, isStackTop, outermost⟩ := wellFormed.topLevelOf?_eq_some isStack turn.outermost
  have topOfTop := wellFormed.topLevelOf?_of_outermost isStackTop outermost
  have topOfParent : tree.topLevelOf? parent = some top := by
    rw [← wellFormed.topLevelOf?_of_nested isStack turn.around, turn.outermost]
  have noImport : references.filterMap tree.import? = [] := by
    refine List.filterMap_eq_nil_iff.mpr fun reference member => ?_
    obtain ⟨_, _, atParent⟩ := (Tree.referencesAmong_eq_ok turn.found).2 reference member
    rw [Tree.import?, atParent, turn.home_eq member, topOfParent, topOfTop]
    exact if_pos rfl
  show next.wiring.graph = _
  rw [wellFormed.graph_wireAll turn.wiring, noImport]
  rfl

/-- Once its nested stacks are embedded, an application has the dependencies that its references
import. -/
theorem graph_of_run (wellFormed : app.tree.WellFormed) (begun : start app = .ok started)
    (run : (nestedStacks app.tree).foldlM (embed app.tree bundler) started = .ok prepared) :
    ∃ references, app.tree.references = .ok references ∧
      prepared.graph = (stackGraph app.tree).addAll (references.filterMap app.tree.import?) := by
  obtain ⟨references, wired, wiring, found, wiredAll, rfl⟩ := start_eq_ok begun
  refine ⟨references, found, ?_⟩
  refine foldlM_invariant (fun _ state => state.graph = _) ?_
    (wellFormed.graph_wireAll wiredAll) run
  intro before stack after state next split known turned
  have isNested := isNested_of_turn wellFormed split
  rw [graph_of_embed wellFormed (Tree.isStack_of_isNested isNested) turned, known]

/-- The stacks depend on what the references of the application import. -/
theorem graph_of_prepare (wellFormed : app.tree.WellFormed)
    (ready : app.prepare bundler = .ok prepared) :
    ∃ references, app.tree.references = .ok references ∧
      prepared.graph = (stackGraph app.tree).addAll (references.filterMap app.tree.import?) ∧
      prepared.graph.verifyAcyclic = .ok () := by
  obtain ⟨started, begun, run, checked⟩ := prepare_eq_ok ready
  obtain ⟨references, found, graph⟩ := graph_of_run wellFormed begun run
  obtain ⟨_, _, acyclic⟩ := bind_eq_ok.mp checked
  exact ⟨references, found, graph, mapError_eq_ok.mp acyclic⟩

/-! ### Stacks and their names -/

theorem dependenciesOf_stackGraph (tree : Tree) (stack : NodeId) :
    (stackGraph tree).dependenciesOf stack = [] := by
  rw [stackGraph]
  suffices kept : ∀ (nodes : List NodeId) (graph : DeployGraph),
      (nodes.foldl (fun graph stack => graph.addStack stack (tree.stackName stack))
        graph).dependencies = graph.dependencies by
    rw [DeployGraph.dependenciesOf, kept]
    rfl
  intro nodes
  induction nodes with
  | nil => exact fun _ => rfl
  | cons first rest inductionHypothesis => exact fun graph => inductionHypothesis _

theorem complete_stackGraph (tree : Tree) : (stackGraph tree).Complete := by
  rw [stackGraph]
  suffices kept : ∀ (nodes : List NodeId) (graph : DeployGraph), graph.Complete →
      (nodes.foldl (fun graph stack => graph.addStack stack (tree.stackName stack))
        graph).Complete from
    kept tree.topLevelStacks .empty DeployGraph.complete_empty
  intro nodes
  induction nodes with
  | nil => exact fun _ complete => complete
  | cons first rest inductionHypothesis =>
    exact fun graph complete => inductionHypothesis _ (complete.withStack first _)

/-- The graph that is checked has the same stacks and dependencies in both of its forms. -/
theorem complete_of_run (wellFormed : app.tree.WellFormed) (begun : start app = .ok started)
    (run : (nestedStacks app.tree).foldlM (embed app.tree bundler) started = .ok prepared) :
    prepared.graph.Complete := by
  obtain ⟨_, _, graph⟩ := graph_of_run wellFormed begun run
  exact graph ▸ (complete_stackGraph app.tree).addAll _

theorem complete_of_prepare (wellFormed : app.tree.WellFormed)
    (ready : app.prepare bundler = .ok prepared) : prepared.graph.Complete := by
  obtain ⟨started, begun, run, _⟩ := prepare_eq_ok ready
  exact complete_of_run wellFormed begun run

/-- A top-level stack is in the graph under its name. -/
theorem named_stackGraph (wellFormed : tree.WellFormed) (isStack : tree.isStack stack = true)
    (notNested : tree.isNested stack = false) :
    (stackGraph tree).stackNames.get? stack = some (some (tree.stackName stack)) := by
  have listed := wellFormed.mem_topLevelStacks.mpr ⟨isStack, notNested⟩
  rw [stackGraph]
  revert listed
  generalize tree.topLevelStacks = nodes
  -- the name is there from the turn of the stack on, or was there before
  suffices kept : ∀ graph : DeployGraph, stack ∈ nodes ∨
      graph.stackNames.get? stack = some (some (tree.stackName stack)) →
      graph.stackNames.contains stack = false ∨
        graph.stackNames.get? stack = some (some (tree.stackName stack)) →
      (nodes.foldl (fun graph stack => graph.addStack stack (tree.stackName stack))
        graph).stackNames.get? stack = some (some (tree.stackName stack)) from
    fun listed => kept .empty (.inl listed) (.inl rfl)
  induction nodes with
  | nil => exact fun _ known _ => known.resolve_left List.not_mem_nil
  | cons first rest inductionHypothesis =>
    intro graph listed known
    rw [List.foldl_cons]
    by_cases here : stack = first
    · subst here
      have named : (graph.addStack stack (tree.stackName stack)).stackNames.get? stack =
          some (some (tree.stackName stack)) := by
        rw [DeployGraph.addStack, DeployGraph.withStack, SortedMap.get?_insertIfNew_self]
        rcases known with isFree | named
        · have free : graph.stackNames.get? stack = none := by
            simpa [SortedMap.contains] using isFree
          rw [free, Option.getD_none]
        · rw [named, Option.getD_some]
      exact inductionHypothesis _ (.inr named) (.inr named)
    · have untouched : (graph.addStack first (tree.stackName first)).stackNames.get? stack =
          graph.stackNames.get? stack := SortedMap.get?_insertIfNew_of_ne here
      refine inductionHypothesis _ ?_ ?_
      · rw [untouched]
        exact listed.imp (fun member => (List.mem_cons.mp member).resolve_left here) id
      · rw [SortedMap.contains, untouched]
        exact known

end Prepared

/-! ### By whichever algorithms -/

namespace Application

variable {app : Application} {algorithms : GraphAlgorithms}

/-- What is prepared of an application, or why it is not, is the same whichever algorithms look for
cycles. -/
theorem prepareBy_eq (bundler : Asset.Bundler) (wellFormed : app.tree.WellFormed)
    (lawful : algorithms.Lawful) : app.prepareBy bundler algorithms = app.prepare bundler := by
  rw [prepare, prepareBy, prepareBy]
  refine bind_eq_bind fun started begun => bind_eq_bind fun prepared run => ?_
  have complete := Prepared.complete_of_run wellFormed begun run
  rw [Prepared.checkGraphBy, Prepared.checkGraphBy,
    DeployGraph.verifyAcyclicBy_eq_of_lawful complete lawful GraphAlgorithms.lawful_plain]

end Application

end StackSynth
