/-
This file takes wiring apart into hops. A value on its route makes one hop at each border that it
crosses, and how it is written behind a border depends on the tree and on how it came there, never
on what is wired already. So the hops of a reference can be listed before anything is wired, and
wiring it is recording its hops one after the other and noting how the value is written at the end.
-/

import StackSynth.Proofs.Outcome
import StackSynth.Wiring.Basic

namespace StackSynth

open Outcome

/-- A border between stacks, in the direction in which it is crossed. -/
inductive Crossing where
  /-- Out of a nested stack, to the stack around it. -/
  | out (stack : NodeId)
  /-- From one top-level stack to another. -/
  | across (exporter importer : NodeId)
  /-- Into a nested stack, from the stack around it. -/
  | into (stack : NodeId)
deriving DecidableEq

/-- The stack whose template names what crosses the border. -/
def Crossing.holder : Crossing → NodeId
  | .out stack => stack
  | .across exporter _ => exporter
  | .into stack => stack

/-- The borders that a route crosses, in order. -/
def Route.crossings (route : Route) : List Crossing :=
  route.up.map .out ++ (route.across.toList.map (fun pair => .across pair.1 pair.2)
    ++ route.down.map .into)

theorem Route.out_mem_crossings {route : Route} {stack : NodeId} :
    .out stack ∈ route.crossings ↔ stack ∈ route.up := by
  simp [crossings]

theorem Route.into_mem_crossings {route : Route} {stack : NodeId} :
    .into stack ∈ route.crossings ↔ stack ∈ route.down := by
  simp [crossings]

theorem Route.across_mem_crossings {route : Route} {exporter importer : NodeId} :
    .across exporter importer ∈ route.crossings ↔ route.across = some (exporter, importer) := by
  simp [crossings]

theorem Route.map_holder_crossings (route : Route) :
    route.crossings.map Crossing.holder =
      route.up ++ (route.across.toList.map (·.1) ++ route.down) := by
  simp [crossings, Function.comp_def, Crossing.holder]

/-- A border that a value crosses, with the value as it comes there. -/
structure Hop where
  crossing : Crossing
  passage : Passage

namespace Hop

/-- The name that the value gets at the border. -/
def name (hop : Hop) : String :=
  match hop.crossing with
  | .out _ => Naming.outputName hop.passage.path hop.passage.attr
  | .across _ _ => Naming.exportOutputName hop.passage.value.written
  | .into _ => Naming.parameterName hop.passage.path hop.passage.attr

/-- The value that a parameter is supplied with, if the border is crossed by one. -/
def supplied? (hop : Hop) : Option Template.Value :=
  match hop.crossing with
  | .into _ => some hop.passage.value
  | _ => none

/-- The output by which the border is crossed, if it is crossed by one. -/
def output? (tree : Tree) (hop : Hop) : Option OutputDecl :=
  match hop.crossing with
  | .out _ => some ⟨none, hop.passage.value, none⟩
  | .across exporter _ =>
    some ⟨none, hop.passage.value, some (Naming.exportName (tree.stackName exporter) hop.name)⟩
  | .into _ => none

end Hop

namespace Tree

/-- How a value is written behind a border. -/
def beyond (tree : Tree) (passage : Passage) : Crossing → Except ResolveError Passage
  | .out stack => do
    let orphan : ConstructError → ResolveError := fun _ => .noEnclosingStack (tree.path stack)
    let resource ← (tree.embeddingId stack).mapError orphan
    let path ← (tree.embeddingPath stack).mapError orphan
    let name := Naming.outputName passage.path passage.attr
    return ⟨path, Naming.embeddedOutput name, .nestedOutput resource name⟩
  | .across exporter _ =>
    let name := Naming.exportName (tree.stackName exporter)
      (Naming.exportOutputName passage.value.written)
    .ok { passage with value := .importValue name }
  | .into stack =>
    let name := Naming.parameterName passage.path passage.attr
    .ok ⟨tree.pathComponents stack ++ [name], "Ref", .ref name⟩

/-- The hops of a value over borders, and how it is written behind the last. -/
def journey (tree : Tree) : Passage → List Crossing → Except ResolveError (List Hop × Passage)
  | passage, [] => .ok ([], passage)
  | passage, crossing :: rest => do
    let next ← tree.beyond passage crossing
    let (hops, final) ← tree.journey next rest
    return (⟨crossing, passage⟩ :: hops, final)

end Tree

/-- A value brought to a stack. -/
structure Delivery where
  boundary : Boundary
  hops : List Hop
  /-- The value as it arrives. -/
  final : Passage

/-- How the value of a producer comes to a stack. -/
def Tree.delivery (tree : Tree) (producer : Producer) (consumer : NodeId) :
    Except ResolveError Delivery := do
  let route ← tree.route producer.home consumer
  let (hops, final) ← tree.journey producer.passage route.crossings
  return ⟨route.boundary, hops, final⟩

namespace Wiring

/-- The wiring with a hop recorded, unless its name is taken. -/
def record (tree : Tree) (wiring : Wiring) (hop : Hop) : Wiring :=
  match hop.crossing with
  | .out stack => wiring.update stack (·.declare hop.name ⟨none, hop.passage.value, none⟩)
  | .across exporter importer =>
    let exported := wiring.update exporter (·.declare hop.name
      ⟨none, hop.passage.value, some (Naming.exportName (tree.stackName exporter) hop.name)⟩)
    { exported with graph := (exported.graph.addDependency importer exporter).1 }
  | .into stack => wiring.update stack (·.receive hop.name hop.passage.value)

/-- The wiring with a delivery recorded, and noted for the leaf that it was made for. -/
def enter (tree : Tree) (wiring : Wiring) (consumption : Consumption) (delivery : Delivery) :
    Wiring :=
  { delivery.hops.foldl (record tree) wiring with
    table := wiring.table.insert consumption delivery.final.value }

variable {tree : Tree} {wiring : Wiring} {passage : Passage}

/-! ### Carrying is recording hops -/

/-- A journey and the wiring that records it. -/
def recorded (tree : Tree) (wiring : Wiring) (travelled : List Hop × Passage) : Passage × Wiring :=
  (travelled.2, travelled.1.foldl (record tree) wiring)

/-- Takes a value over a border. -/
def carryOver (tree : Tree) (passage : Passage) : Crossing → Action Passage
  | .out stack => carryUp tree stack passage
  | .across exporter importer => carryAcross tree exporter importer passage
  | .into stack => carryDown tree stack passage

/-- Carrying a value along a route takes it over the borders of the route, one after the other. -/
theorem carry_eq_foldlM (tree : Tree) (route : Route) (passage : Passage) :
    carry tree route passage = route.crossings.foldlM (carryOver tree) passage := by
  rw [carry, Route.crossings, List.foldlM_append, List.foldlM_map]
  refine bind_congr fun above => ?_
  rw [List.foldlM_append]
  cases route.across with
  | none =>
    simp only [Option.toList_none, List.map_nil, List.foldlM_nil, List.foldlM_map]
    rfl
  | some pair =>
    simp only [Option.toList_some, List.map_cons, List.map_nil, List.foldlM_cons, List.foldlM_nil,
      bind_pure, List.foldlM_map]
    rfl

theorem outcome_carryOver (tree : Tree) (wiring : Wiring) (passage : Passage)
    (crossing : Crossing) :
    outcome (carryOver tree passage crossing) wiring =
      (tree.beyond passage crossing).map
        (fun next => (next, wiring.record tree ⟨crossing, passage⟩)) := by
  cases crossing with
  | out stack =>
    rw [carryOver, carryUp, Tree.beyond]
    simp only [outcome_bind, outcome_answer]
    cases tree.embeddingId stack with
    | error cause => rfl
    | ok resource =>
      cases tree.embeddingPath stack with
      | error cause => rfl
      | ok path => rfl
  | across exporter importer => rfl
  | into stack => rfl

/-- Taking a value over borders records the hops of its journey. -/
theorem outcome_foldlM_carryOver (tree : Tree) (crossings : List Crossing) :
    ∀ (wiring : Wiring) (passage : Passage),
      outcome (crossings.foldlM (carryOver tree) passage) wiring =
        (tree.journey passage crossings).map (recorded tree wiring) := by
  induction crossings with
  | nil => exact fun _ _ => rfl
  | cons crossing rest inductionHypothesis =>
    intro wiring passage
    rw [List.foldlM_cons, outcome_bind, outcome_carryOver, Tree.journey]
    cases tree.beyond passage crossing with
    | error cause => rfl
    | ok next =>
      refine (inductionHypothesis (wiring.record tree ⟨crossing, passage⟩) next).trans ?_
      simp only [bind, Except.bind]
      cases tree.journey next rest with
      | error cause => rfl
      | ok pair => rfl

theorem table_record (tree : Tree) (wiring : Wiring) (hop : Hop) :
    (wiring.record tree hop).table = wiring.table := by
  rw [record]
  split <;> rfl

theorem table_foldl_record (tree : Tree) (hops : List Hop) (wiring : Wiring) :
    (hops.foldl (record tree) wiring).table = wiring.table :=
  List.foldlRecOn hops (motive := fun current : Wiring => current.table = wiring.table) _ rfl
    fun current unchanged hop _ => (table_record tree current hop).trans unchanged

/-- Wiring a reference enters its delivery, which does not depend on what is wired already. -/
theorem wire_eq (tree : Tree) (wiring : Wiring) (reference : Reference) :
    wiring.wire tree reference =
      (tree.delivery reference.producer reference.consumerStack).map (fun delivery =>
        (delivery.boundary,
          wiring.enter tree (reference.leaf, reference.consumerStack) delivery)) := by
  rw [wire, attempt, outcome_bind, outcome_answer, Tree.delivery]
  cases tree.route reference.producer.home reference.consumerStack with
  | error cause => rfl
  | ok route =>
    simp only [Except.map, bind, Except.bind]
    refine (outcome_bind _ _ _).trans ?_
    rw [carry_eq_foldlM, outcome_foldlM_carryOver]
    cases tree.journey reference.producer.passage route.crossings with
    | error cause => rfl
    | ok pair =>
      have sameTable := table_foldl_record tree pair.1 wiring
      simp only [Except.map, pure, Except.pure, enter, ← sameTable]
      rfl

end Wiring

/-! ### Deliveries -/

namespace Tree

variable {tree : Tree}

/-- A journey crosses the borders it was planned over. -/
theorem crossings_journey {crossings : List Crossing} :
    ∀ {passage final : Passage} {hops : List Hop},
      tree.journey passage crossings = .ok (hops, final) → hops.map Hop.crossing = crossings := by
  induction crossings with
  | nil =>
    intro passage final hops travelled
    cases travelled
    rfl
  | cons crossing rest inductionHypothesis =>
    intro passage final hops travelled
    obtain ⟨next, _, travelled⟩ := bind_eq_ok.mp travelled
    obtain ⟨⟨further, last⟩, travelledRest, same⟩ := bind_eq_ok.mp travelled
    cases same
    rw [List.map_cons, inductionHypothesis travelledRest]

/-- A delivery is a journey along a route. -/
theorem delivery_eq_ok {producer : Producer} {consumer : NodeId} {delivery : Delivery}
    (delivered : tree.delivery producer consumer = .ok delivery) :
    ∃ route, tree.route producer.home consumer = .ok route ∧ delivery.boundary = route.boundary ∧
      tree.journey producer.passage route.crossings = .ok (delivery.hops, delivery.final) := by
  obtain ⟨route, found, delivered⟩ := bind_eq_ok.mp delivered
  obtain ⟨⟨hops, final⟩, travelled, same⟩ := bind_eq_ok.mp delivered
  cases same
  exact ⟨route, found, rfl, travelled⟩

/-- A value makes one hop at each border of its route. -/
theorem crossings_of_delivery {producer : Producer} {consumer : NodeId} {route : Route}
    {delivery : Delivery} (found : tree.route producer.home consumer = .ok route)
    (delivered : tree.delivery producer consumer = .ok delivery) :
    delivery.hops.map Hop.crossing = route.crossings := by
  obtain ⟨_, same, _, travelled⟩ := delivery_eq_ok delivered
  cases Except.ok.inj (found.symm.trans same)
  exact crossings_journey travelled

theorem exists_hop_of_crossing {producer : Producer} {consumer : NodeId} {route : Route}
    {delivery : Delivery} {crossing : Crossing}
    (found : tree.route producer.home consumer = .ok route)
    (delivered : tree.delivery producer consumer = .ok delivery)
    (member : crossing ∈ route.crossings) : ∃ passage, ⟨crossing, passage⟩ ∈ delivery.hops := by
  rw [← crossings_of_delivery found delivered] at member
  obtain ⟨hop, isHop, rfl⟩ := List.mem_map.mp member
  exact ⟨hop.passage, isHop⟩

end Tree

end StackSynth
