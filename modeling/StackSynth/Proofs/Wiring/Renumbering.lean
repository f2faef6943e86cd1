/-
This file compares the wiring of trees that hold the same constructs under different numbers. How a
value is written, where it comes from and which borders it crosses depends on the tree only, so
deliveries are the same up to the numbers of the stacks on the way; and as the references come in
the order of the tree, they record the same names at the same stacks in the same order.
-/

import StackSynth.Proofs.Construct.Renumbering
import StackSynth.Proofs.Deployment.Renumbering
import StackSynth.Proofs.Wiring.Record

namespace StackSynth

open Outcome

variable {number : NodeId ≃ NodeId}

/-- The producer when every construct has another number. -/
def Producer.renumber (number : NodeId ≃ NodeId) (producer : Producer) : Producer :=
  { producer with home := number producer.home }

theorem Producer.home_renumber (producer : Producer) :
    (producer.renumber number).home = number producer.home := rfl

/-- The reference when every construct has another number. -/
def Reference.renumber (number : NodeId ≃ NodeId) (reference : Reference) : Reference :=
  ⟨reference.leaf.renumber number, reference.producer.renumber number, number reference.consumer,
    number reference.consumerStack⟩

/-- The route when every stack has another number. -/
def Route.renumber (number : NodeId ≃ NodeId) (route : Route) : Route :=
  ⟨route.boundary, route.up.map number, route.across.map (Prod.map number number),
    route.down.map number⟩

/-- The border when every stack has another number. -/
def Crossing.renumber (number : NodeId ≃ NodeId) : Crossing → Crossing
  | .out stack => .out (number stack)
  | .across exporter importer => .across (number exporter) (number importer)
  | .into stack => .into (number stack)

/-- The hop when every stack has another number. -/
def Hop.renumber (number : NodeId ≃ NodeId) (hop : Hop) : Hop :=
  ⟨hop.crossing.renumber number, hop.passage⟩

/-- The delivery when every stack has another number. -/
def Delivery.renumber (number : NodeId ≃ NodeId) (delivery : Delivery) : Delivery :=
  { delivery with hops := delivery.hops.map (Hop.renumber number) }

theorem Leaf.ownIdentity?_renumber (leaf : Leaf) (stack : NodeId) :
    (leaf.renumber number).ownIdentity? (number stack) = leaf.ownIdentity? stack := by
  cases leaf <;> simp [renumber, ownIdentity?]

theorem Route.crossings_renumber (route : Route) :
    (route.renumber number).crossings = route.crossings.map (Crossing.renumber number) := by
  obtain ⟨boundary, up, across, down⟩ := route
  cases across <;> simp [crossings, renumber, Crossing.renumber, Function.comp_def]

theorem Boundary.within_map (up down : List NodeId) :
    within (up.map number) (down.map number) = within up down := by
  cases up <;> cases down <;> rfl

namespace Tree.Renumbers

variable {first second : Tree} {stack node : NodeId} (renumbers : first.Renumbers number second)
include renumbers

/-! ### Producers -/

theorem constructProducer (attr : String) :
    Concur (fun one other => one.renumber number = other) (first.constructProducer node attr)
      (second.constructProducer (number node) attr) := by
  rw [Tree.constructProducer, Tree.constructProducer, renumbers.nodes, renumbers.stackOf?,
    renumbers.logicalId, renumbers.pathComponents]
  cases first.get? node with
  | none => exact .error _ _
  | some found =>
    cases first.stackOf? node with
    | none => exact .error _ _
    | some home =>
      cases first.logicalId node with
      | error cause => exact .error _ _
      | ok name =>
        obtain ⟨id, parent, construct⟩ := found
        cases construct with
        | resource content => exact .ok rfl
        | parameter declaration =>
          by_cases isRef : attr = "Ref"
          · subst isRef
            exact .ok rfl
          · simp only [Option.map_some, Node.renumber, Construct.renumber, if_neg isRef]
            exact .error _ _
        | _ => exact .error _ _

theorem stackProducer (attr : StackAttribute) :
    Concur (fun one other => one.renumber number = other) (first.stackProducer stack attr)
      (second.stackProducer (number stack) attr) := by
  rw [Tree.stackProducer, Tree.stackProducer, renumbers.nodes]
  cases first.get? stack with
  | none => exact .error _ _
  | some found =>
    have isStack : (found.renumber number).construct.isStack = found.construct.isStack :=
      Construct.isStack_renumber found.construct
    have isNested : (found.renumber number).construct.isNestedStack =
        found.construct.isNestedStack := Construct.isNestedStack_renumber found.construct
    simp only [Option.map_some, isStack, isNested, renumbers.parentStack?]
    refine .check Iff.rfl ?_
    split
    · refine .ok ?_
      rw [Producer.renumber, renumbers.pathComponents]
    · cases first.parentStack? stack with
      | none => exact .error _ _
      | some home =>
        refine (renumbers.embeddingId.mapError _ _).bind ?_
        rintro resource _ rfl
        refine (renumbers.embeddingPath.mapError _ _).bind ?_
        rintro path _ rfl
        exact .ok rfl

theorem producer (leaf : Leaf) :
    Concur (fun one other => one.renumber number = other) (first.producer leaf)
      (second.producer (leaf.renumber number)) := by
  cases leaf with
  | construct node attr => exact renumbers.constructProducer attr
  | asset stack hash slot =>
    refine .ok ?_
    rw [Producer.renumber, renumbers.pathComponents]
  | stack stack attr => exact renumbers.stackProducer attr

/-! ### References -/

theorem referenceBetween (leaf : Leaf) (consumer : NodeId) :
    Concur (fun one other => one.map (Reference.renumber number) = other)
      (first.referenceBetween leaf consumer stack)
      (second.referenceBetween (leaf.renumber number) (number consumer) (number stack)) := by
  rw [Tree.referenceBetween, Tree.referenceBetween, Leaf.ownIdentity?_renumber]
  by_cases isOwn : (leaf.ownIdentity? stack).isSome
  · rw [if_pos isOwn, if_pos isOwn]
    exact .ok rfl
  · rw [if_neg isOwn, if_neg isOwn]
    refine (renumbers.producer leaf).bind ?_
    rintro producer _ rfl
    by_cases atHome : producer.home = stack
    · rw [if_pos atHome, if_pos (by rw [Producer.home_renumber, atHome])]
      exact .ok rfl
    · rw [if_neg atHome, if_neg (by rwa [Producer.home_renumber, number.apply_eq_iff_eq])]
      exact .ok rfl

/-- A construct consumes the same leaves under the other numbers. -/
theorem consumedBy :
    second.consumedBy (number node) = (first.consumedBy node).map (Leaf.renumber number) := by
  rw [Tree.consumedBy, Tree.consumedBy, renumbers.nodes, renumbers.stackOf?,
    renumbers.topLevelOf?]
  cases first.get? node with
  | none => rfl
  | some found =>
    obtain ⟨id, parent, construct⟩ := found
    cases construct with
    | resource content => exact Deferred.leavesOfMembers_renumber content.properties
    | output spec => exact Deferred.leaves_renumber spec.value
    | asset hash packaging =>
      cases packaging with
      | file => rfl
      | containerImage =>
        cases first.stackOf? node with
        | none => rfl
        | some stack =>
          cases first.topLevelOf? node with
          | none => rfl
          | some top =>
            simp only [Option.map_some, Node.renumber, Construct.renumber, renumbers.isNested]
            split <;> rfl
    | _ => rfl

theorem referencesAmong (consumer : NodeId) (leaves : List Leaf) :
    ∀ seen, Concur (fun one other => one.map (Reference.renumber number) = other)
      (first.referencesAmong consumer stack seen leaves)
      (second.referencesAmong (number consumer) (number stack)
        (seen.map (Leaf.renumber number)) (leaves.map (Leaf.renumber number))) := by
  induction leaves with
  | nil => exact fun _ => .ok rfl
  | cons leaf rest inductionHypothesis =>
    intro seen
    have isSeen : (seen.map (Leaf.renumber number)).contains (leaf.renumber number) =
        seen.contains leaf := by
      rw [Bool.eq_iff_iff, List.contains_iff_mem, List.contains_iff_mem,
        List.mem_map_of_injective fun _ _ => Leaf.renumber_injective]
    rw [List.map_cons, Tree.referencesAmong, Tree.referencesAmong, isSeen]
    split
    · exact inductionHypothesis seen
    · refine (renumbers.referenceBetween leaf consumer).bind ?_
      rintro found _ rfl
      cases found with
      | none => exact inductionHypothesis seen
      | some reference =>
        refine (inductionHypothesis (leaf :: seen)).bind ?_
        rintro references _ rfl
        exact .ok rfl

theorem referencesOf (node : NodeId) :
    Concur (fun one other => one.map (Reference.renumber number) = other)
      (first.referencesOf node) (second.referencesOf (number node)) := by
  rw [Tree.referencesOf, Tree.referencesOf, renumbers.consumedBy, renumbers.stackOf?]
  cases first.consumedBy node with
  | nil => exact .ok rfl
  | cons leaf rest =>
    cases first.stackOf? node with
    | none => exact .error _ _
    | some stack => exact renumbers.referencesAmong node (leaf :: rest) []

/-- The references of the application come in the same order. -/
theorem references : Concur (fun one other => one.map (Reference.renumber number) = other)
    first.references second.references := by
  rw [Tree.references, Tree.references, renumbers.preorder]
  refine (Concur.mapM fun node _ => renumbers.referencesOf node).bind ?_
  rintro perNode _ rfl
  exact .ok List.map_flatten

/-! ### Routes -/

theorem requireChain (stack : NodeId) :
    Concur (fun one other => one.map number = other) (first.requireChain stack)
      (second.requireChain (number stack)) := by
  have isHead : ((first.stackChain stack).map number).head? = some (number stack) ↔
      (first.stackChain stack).head? = some stack := by
    rw [List.head?_map, ← Option.map_some, (Option.map_injective number.injective).eq_iff]
  rw [Tree.requireChain, Tree.requireChain, renumbers.stackChain]
  simp only [isHead]
  split
  · exact .ok rfl
  · exact .error _ _

theorem route (home consumer : NodeId) :
    Concur (fun one other => one.renumber number = other) (first.route home consumer)
      (second.route (number home) (number consumer)) := by
  rw [Tree.route, Tree.route]
  simp only [number.apply_eq_iff_eq]
  split
  · exact .ok rfl
  · refine (renumbers.requireChain home).bind ?_
    rintro homeChain _ rfl
    refine (renumbers.requireChain consumer).bind ?_
    rintro consumerChain _ rfl
    rw [List.getLast?_map, List.getLast?_map]
    cases homeChain.getLast? with
    | none => exact .error _ _
    | some homeTop =>
      cases consumerChain.getLast? with
      | none => exact .error _ _
      | some consumerTop =>
        have shared : (homeChain.map number).find?
            (fun stack => (consumerChain.map number).contains stack) =
            (homeChain.find? (fun stack => consumerChain.contains stack)).map number := by
          have sameTest : (fun stack => (consumerChain.map number).contains stack) ∘ number =
              fun stack => consumerChain.contains stack := by
            funext stack
            simp
          rw [List.find?_map, sameTest]
        have before : ∀ (chain : List NodeId) (stack : NodeId),
            (chain.map number).takeWhile (· ≠ number stack) =
              (chain.takeWhile (· ≠ stack)).map number := by
          intro chain stack
          rw [List.takeWhile_map]
          simp [Function.comp_def]
        simp only [Option.map_some, ne_eq, number.apply_eq_iff_eq, shared]
        split
        · refine .ok ?_
          simp [Route.renumber, List.map_dropLast]
        · cases homeChain.find? (fun stack => consumerChain.contains stack) with
          | none => exact .error _ _
          | some stack =>
            refine .ok ?_
            simp only [Route.renumber, before, ← List.map_reverse, Boundary.within_map]
            rfl

/-! ### Deliveries -/

theorem beyond (passage : Passage) (crossing : Crossing) :
    Concur (· = ·) (first.beyond passage crossing)
      (second.beyond passage (crossing.renumber number)) := by
  cases crossing with
  | out stack =>
    refine (renumbers.embeddingId.mapError _ _).bind ?_
    rintro resource _ rfl
    refine (renumbers.embeddingPath.mapError _ _).bind ?_
    rintro path _ rfl
    exact .ok rfl
  | across exporter importer =>
    refine .ok ?_
    rw [renumbers.stackName]
  | into stack =>
    refine .ok ?_
    rw [renumbers.pathComponents]

theorem journey (crossings : List Crossing) :
    ∀ passage, Concur (fun one other => one.map (List.map (Hop.renumber number)) id = other)
      (first.journey passage crossings)
      (second.journey passage (crossings.map (Crossing.renumber number))) := by
  induction crossings with
  | nil => exact fun _ => .ok rfl
  | cons crossing rest inductionHypothesis =>
    intro passage
    refine (renumbers.beyond passage crossing).bind ?_
    rintro next _ rfl
    refine (inductionHypothesis next).bind ?_
    rintro travelled _ rfl
    exact .ok rfl

theorem delivery (producer : Producer) (consumer : NodeId) :
    Concur (fun one other => one.renumber number = other) (first.delivery producer consumer)
      (second.delivery (producer.renumber number) (number consumer)) := by
  refine (renumbers.route producer.home consumer).bind ?_
  rintro route _ rfl
  rw [Route.crossings_renumber]
  refine (renumbers.journey route.crossings producer.passage).bind ?_
  rintro travelled _ rfl
  exact .ok rfl

end Tree.Renumbers

/-! ### What is wired -/

/-- What is wired between the same stacks under other numbers. -/
structure Wiring.Renumbers (number : NodeId ≃ NodeId) (first second : Wiring) : Prop where
  states : ∀ stack, second.stateOf (number stack) = first.stateOf stack
  table : ∀ leaf stack, second.table.get? (leaf.renumber number, number stack) =
    first.table.get? (leaf, stack)
  graph : first.graph.Renumbers number second.graph
  complete : first.graph.Complete
  completeToo : second.graph.Complete

namespace Wiring.Renumbers

variable {tree treeToo : Tree} {first second : Wiring}

theorem start {graph graphToo : DeployGraph} (graphs : graph.Renumbers number graphToo)
    (complete : graph.Complete) (completeToo : graphToo.Complete) :
    (Wiring.start graph).Renumbers number (.start graphToo) where
  states _ := rfl
  table _ _ := rfl
  graph := graphs
  complete := complete
  completeToo := completeToo

variable (trees : tree.Renumbers number treeToo)
include trees

/-- A border is crossed under the same name and by the same means. -/
theorem note_renumber (state : StackWiring) (hop : Hop) :
    state.note treeToo (hop.renumber number) = state.note tree hop := by
  obtain ⟨crossing, passage⟩ := hop
  cases crossing with
  | across exporter importer =>
    simp only [StackWiring.note, Hop.renumber, Crossing.renumber, Hop.supplied?, Hop.output?,
      Hop.name, trees.stackName]
  | _ => rfl

theorem record (renumbers : first.Renumbers number second) (hop : Hop) :
    (first.record tree hop).Renumbers number (second.record treeToo (hop.renumber number)) where
  states := by
    intro stack
    have isHolder : number stack = (hop.renumber number).crossing.holder ↔
        stack = hop.crossing.holder := by
      obtain ⟨crossing, passage⟩ := hop
      cases crossing <;> exact number.apply_eq_iff_eq
    rw [stateOf_record, stateOf_record, renumbers.states, note_renumber trees]
    simp only [isHolder]
  table := by
    intro leaf stack
    rw [table_record, table_record, renumbers.table]
  graph := by
    obtain ⟨crossing, passage⟩ := hop
    cases crossing with
    | across exporter importer => exact renumbers.graph.addDependency importer exporter
    | _ => exact renumbers.graph
  complete := by
    obtain ⟨crossing, passage⟩ := hop
    cases crossing with
    | across exporter importer => exact renumbers.complete.addDependency
    | _ => exact renumbers.complete
  completeToo := by
    obtain ⟨crossing, passage⟩ := hop
    cases crossing with
    | across exporter importer => exact renumbers.completeToo.addDependency
    | _ => exact renumbers.completeToo

theorem foldl_record (hops : List Hop) {first second : Wiring}
    (renumbers : first.Renumbers number second) :
    (hops.foldl (Wiring.record tree) first).Renumbers number
      ((hops.map (Hop.renumber number)).foldl (Wiring.record treeToo) second) := by
  rw [List.foldl_map]
  exact List.foldl_rel (r := (Wiring.Renumbers number · ·)) renumbers
    fun hop _ _ _ renumbers => renumbers.record trees hop

theorem enter (renumbers : first.Renumbers number second) (leaf : Leaf) (stack : NodeId)
    (delivery : Delivery) :
    (first.enter tree (leaf, stack) delivery).Renumbers number
      (second.enter treeToo (leaf.renumber number, number stack)
        (delivery.renumber number)) where
  __ := foldl_record trees delivery.hops renumbers
  table := by
    intro other place
    rw [Wiring.enter, Wiring.enter]
    by_cases here : (other, place) = (leaf, stack)
    · cases here
      exact (SortedMap.get?_insert_self _ _ _).trans (SortedMap.get?_insert_self _ _ _).symm
    · have elsewhere : (other.renumber number, number place) ≠
          (leaf.renumber number, number stack) := by
        intro same
        obtain ⟨sameLeaf, samePlace⟩ := Prod.mk.inj same
        exact here (Prod.ext (Leaf.renumber_injective sameLeaf) (number.injective samePlace))
      exact (SortedMap.get?_insert_of_ne elsewhere).trans
        ((renumbers.table other place).trans (SortedMap.get?_insert_of_ne here).symm)

theorem wire (renumbers : first.Renumbers number second) (reference : Reference) :
    Concur (fun one other => one.2.Renumbers number other.2) (first.wire tree reference)
      (second.wire treeToo (reference.renumber number)) := by
  rw [wire_eq, wire_eq]
  refine (trees.delivery reference.producer reference.consumerStack).map ?_
  rintro delivery _ rfl
  exact renumbers.enter trees reference.leaf reference.consumerStack delivery

/-- References are wired alike, one after the other. -/
theorem wireAll (references : List Reference) :
    ∀ {first second : Wiring}, first.Renumbers number second →
      Concur (fun one other => one.2.Renumbers number other.2)
        (first.wireAll tree references)
        (second.wireAll treeToo (references.map (Reference.renumber number))) := by
  induction references with
  | nil => exact fun renumbers => .ok renumbers
  | cons reference rest inductionHypothesis =>
    intro first second renumbers
    rw [List.map_cons, Wiring.wireAll, Wiring.wireAll]
    refine (renumbers.wire trees reference).bind fun one other wired => ?_
    exact (inductionHypothesis wired).bind fun _ _ wiredAll => .ok wiredAll

end Wiring.Renumbers

end StackSynth
