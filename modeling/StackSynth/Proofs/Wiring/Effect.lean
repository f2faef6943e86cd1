/-
This file says what a call does and that it does nothing else. It writes at the borders of its
route, one name into each stack there and none where the name is taken, notes its value, and makes
the importing stack depend on the exporting one. What is there already stays as it is, whatever it
is, and a call that fails has done nothing.
-/

import StackSynth.Proofs.Wiring.Calls

namespace StackSynth

open Outcome

variable {tree : Tree} {reference : Reference} {route : Route} {hop : Hop} {stack : NodeId}

/-! ### One entry more -/

/-- A map has one entry more than another, if its name was not taken. -/
structure SortedMap.Gains {ν : Type} (before after : SortedMap String ν) (name : String)
    (value : ν) : Prop where
  others : ∀ {other}, other ≠ name → after.get? other = before.get? other
  entry : after.get? name = some ((before.get? name).getD value)
  count : after.size = before.size + if before.contains name then 0 else 1

theorem SortedMap.gains_insertIfNew {ν : Type} (map : SortedMap String ν) (name : String)
    (value : ν) : map.Gains (map.insertIfNew name value) name value where
  others apart := get?_insertIfNew_of_ne apart
  entry := get?_insertIfNew_self map name value
  count := size_insertIfNew map name value

/-- What was there stays. -/
theorem SortedMap.Gains.kept {ν : Type} {before after : SortedMap String ν} {name other : String}
    {value found : ν} (gains : before.Gains after name value)
    (known : before.get? other = some found) : after.get? other = some found := by
  by_cases here : other = name
  · rw [here, gains.entry, ← here, known, Option.getD_some]
  · rw [gains.others here, known]

/-- A new name counts. -/
theorem SortedMap.Gains.size_of_new {ν : Type} {before after : SortedMap String ν} {name : String}
    {value : ν} (gains : before.Gains after name value) (isNew : before.contains name = false) :
    after.size = before.size + 1 := by
  rw [gains.count, isNew, if_neg Bool.false_ne_true]

namespace StackWiring

/-- A stack shows one value more, if its name was not taken. -/
structure GainsOutput (before after : StackWiring) (name : String) (declaration : OutputDecl) :
    Prop where
  parameters : after.parameters = before.parameters
  received : after.received = before.received
  outputs : before.outputs.Gains after.outputs name declaration

/-- A stack receives one value more, if its name was not taken. -/
structure GainsParameter (before after : StackWiring) (name : String) (value : Template.Value) :
    Prop where
  parameters : before.parameters.Gains after.parameters name .string
  received : before.received.Gains after.received name value
  outputs : after.outputs = before.outputs

/-- All that one stack has got another has got as well. -/
structure Within (before after : StackWiring) : Prop where
  parameters : ∀ {name declaration}, before.parameters.get? name = some declaration →
    after.parameters.get? name = some declaration
  received : ∀ {name value}, before.received.get? name = some value →
    after.received.get? name = some value
  outputs : ∀ {name declaration}, before.outputs.get? name = some declaration →
    after.outputs.get? name = some declaration

variable {before after : StackWiring} {name : String}

theorem gainsOutput_declare (state : StackWiring) (name : String) (declaration : OutputDecl) :
    state.GainsOutput (state.declare name declaration) name declaration where
  parameters := rfl
  received := rfl
  outputs := state.outputs.gains_insertIfNew name declaration

theorem parameters_receive (state : StackWiring) (name : String) (value : Template.Value) :
    (state.receive name value).parameters = state.parameters.insertIfNew name .string := by
  rw [receive, SortedMap.insertIfNew]
  split <;> rfl

theorem gainsParameter_receive (state : StackWiring) (name : String) (value : Template.Value) :
    state.GainsParameter (state.receive name value) name value where
  parameters := by
    rw [parameters_receive]
    exact state.parameters.gains_insertIfNew name .string
  received := by
    rw [received_receive]
    exact state.received.gains_insertIfNew name value
  outputs := outputs_receive state name value

theorem Within.refl (state : StackWiring) : state.Within state := ⟨id, id, id⟩

theorem GainsOutput.within {declaration : OutputDecl}
    (gains : before.GainsOutput after name declaration) : before.Within after where
  parameters := by
    rw [gains.parameters]
    exact id
  received := by
    rw [gains.received]
    exact id
  outputs := gains.outputs.kept

theorem GainsParameter.within {value : Template.Value}
    (gains : before.GainsParameter after name value) : before.Within after where
  parameters := gains.parameters.kept
  received := gains.received.kept
  outputs := by
    rw [gains.outputs]
    exact id

/-- What a hop shows, the stack that names it gains. -/
theorem gainsOutput_note (state : StackWiring) {declaration : OutputDecl}
    (shown : hop.output? tree = some declaration) :
    state.GainsOutput (state.note tree hop) hop.name declaration := by
  obtain ⟨crossing, passage⟩ := hop
  cases crossing with
  | out stack | across exporter importer =>
    cases shown
    exact gainsOutput_declare state _ _
  | into stack => cases shown

/-- What a hop supplies, the stack that names it gains. -/
theorem gainsParameter_note (state : StackWiring) {value : Template.Value}
    (supplied : hop.supplied? = some value) :
    state.GainsParameter (state.note tree hop) hop.name value := by
  obtain ⟨crossing, passage⟩ := hop
  cases crossing with
  | out stack | across exporter importer => cases supplied
  | into stack =>
    cases supplied
    exact gainsParameter_receive state _ _

theorem within_note (tree : Tree) (state : StackWiring) (hop : Hop) :
    state.Within (state.note tree hop) := by
  cases supplied : hop.supplied? with
  | some value => exact (gainsParameter_note state supplied).within
  | none =>
    cases shown : hop.output? tree with
    | some declaration => exact (gainsOutput_note state shown).within
    | none =>
      rw [StackWiring.note, supplied, shown]
      exact .refl state

end StackWiring

/-! ### One dependency more -/

/-- The dependency that a route adds to those of a stack, if it is new. -/
def Route.newDependencies (route : Route) (graph : DeployGraph) (stack : NodeId) : List NodeId :=
  match route.across with
  | some (exporter, importer) =>
    if stack = importer ∧ exporter ∉ graph.dependenciesOf importer then [exporter] else []
  | none => []

/-! ### One call -/

/-- The name that a hop gives is not taken in the stack that names it. -/
def Hop.IsFresh (wiring : Wiring) (hop : Hop) : Prop :=
  match hop.crossing with
  | .into stack => (wiring.stateOf stack).parameters.contains hop.name = false
  | .out stack | .across stack _ => (wiring.stateOf stack).outputs.contains hop.name = false

theorem Hop.isFresh_start (hop : Hop) (graph : DeployGraph) : hop.IsFresh (.start graph) := by
  obtain ⟨crossing, passage⟩ := hop
  cases crossing <;> rfl

namespace Wiring

/-- What a call does with a value that comes along a route. -/
structure Effect (tree : Tree) (reference : Reference) (route : Route) (delivery : Delivery)
    (before after : Wiring) : Prop where
  /-- The value makes one hop at each border of the route. -/
  crossings : delivery.hops.map Hop.crossing = route.crossings
  elsewhere : ∀ {stack}, stack ∉ route.up → stack ∉ route.down →
    (∀ importer, route.across ≠ some (stack, importer)) →
    after.states.get? stack = before.states.get? stack
  kept : ∀ stack, (before.stateOf stack).Within (after.stateOf stack)
  noted : after.table =
    before.table.insert (reference.leaf, reference.consumerStack) delivery.final.value
  up : ∀ {stack}, stack ∈ route.up → ∃ passage, ⟨.out stack, passage⟩ ∈ delivery.hops ∧
    (before.stateOf stack).GainsOutput (after.stateOf stack)
      (Naming.outputName passage.path passage.attr) ⟨none, passage.value, none⟩
  down : ∀ {stack}, stack ∈ route.down → ∃ passage, ⟨.into stack, passage⟩ ∈ delivery.hops ∧
    (before.stateOf stack).GainsParameter (after.stateOf stack)
      (Naming.parameterName passage.path passage.attr) passage.value
  across : ∀ {exporter importer}, route.across = some (exporter, importer) →
    ∃ passage, ⟨.across exporter importer, passage⟩ ∈ delivery.hops ∧
      (before.stateOf exporter).GainsOutput (after.stateOf exporter)
        (Naming.exportOutputName passage.value.written)
        ⟨none, passage.value, some (Naming.exportName (tree.stackName exporter)
          (Naming.exportOutputName passage.value.written))⟩
  dependencies : ∀ stack, after.graph.dependenciesOf stack =
    before.graph.dependenciesOf stack ++ route.newDependencies before.graph stack
  named : ∀ {stack name}, before.graph.stackNames.get? stack = some name →
    after.graph.stackNames.get? stack = some name

/-- There is exactly one entry more at each border of a route. -/
structure OneMore (route : Route) (before after : Wiring) : Prop where
  up : ∀ stack ∈ route.up,
    (after.stateOf stack).outputs.size = (before.stateOf stack).outputs.size + 1
  down : ∀ stack ∈ route.down,
    (after.stateOf stack).parameters.size = (before.stateOf stack).parameters.size + 1 ∧
      (after.stateOf stack).received.size = (before.stateOf stack).received.size + 1
  across : ∀ exporter importer, route.across = some (exporter, importer) →
    (after.stateOf exporter).outputs.size = (before.stateOf exporter).outputs.size + 1

variable {before after : Wiring} {delivery : Delivery}

/-- A call whose names are not taken adds one entry at each border. -/
theorem Effect.oneMore (effect : Effect tree reference route delivery before after)
    (fresh : ∀ hop ∈ delivery.hops, hop.IsFresh before) : OneMore route before after where
  up stack member := by
    obtain ⟨passage, isHop, gains⟩ := effect.up member
    exact gains.outputs.size_of_new (fresh _ isHop)
  down stack member := by
    obtain ⟨passage, isHop, gains⟩ := effect.down member
    have isFree : (before.stateOf stack).parameters.contains
        (Naming.parameterName passage.path passage.attr) = false := fresh _ isHop
    refine ⟨gains.parameters.size_of_new isFree, gains.received.size_of_new ?_⟩
    rw [← StackWiring.contains_parameters, isFree]
  across exporter importer goesAcross := by
    obtain ⟨passage, isHop, gains⟩ := effect.across goesAcross
    exact gains.outputs.size_of_new (fresh _ isHop)

/-! ### What entering a delivery does -/

section Entering

variable (tree) (before) (consumption : Consumption)

/-- Each stack on the way has got what its hop brings. -/
theorem stateOf_enter_of_mem (distinct : (delivery.hops.map (·.crossing.holder)).Nodup)
    (isHop : hop ∈ delivery.hops) :
    (before.enter tree consumption delivery).stateOf hop.crossing.holder =
      (before.stateOf hop.crossing.holder).note tree hop := by
  have brought := get?_foldl_noteIn_of_mem tree distinct isHop before.states
  rw [← states_foldl_record] at brought
  rw [stateOf, enter, brought]
  rfl

/-- The other stacks are left alone. -/
theorem get?_states_enter (elsewhere : stack ∉ delivery.hops.map (·.crossing.holder)) :
    (before.enter tree consumption delivery).states.get? stack = before.states.get? stack := by
  rw [enter, states_foldl_record]
  exact get?_foldl_noteIn elsewhere before.states

/-- Nothing is lost. -/
theorem within_enter (distinct : (delivery.hops.map (·.crossing.holder)).Nodup)
    (stack : NodeId) :
    (before.stateOf stack).Within
      ((before.enter tree consumption delivery).stateOf stack) := by
  by_cases onTheWay : stack ∈ delivery.hops.map (·.crossing.holder)
  · obtain ⟨hop, isHop, rfl⟩ := List.mem_map.mp onTheWay
    rw [stateOf_enter_of_mem tree before consumption distinct isHop]
    exact StackWiring.within_note tree _ hop
  · rw [stateOf, stateOf, get?_states_enter tree before consumption onTheWay]
    exact .refl _

end Entering

/-- A delivery is noted in the stacks that hold the borders of its route. -/
theorem holders_of_delivery {producer : Producer} {consumer : NodeId}
    (found : tree.route producer.home consumer = .ok route)
    (delivered : tree.delivery producer consumer = .ok delivery) :
    delivery.hops.map (·.crossing.holder) =
      route.up ++ (route.across.toList.map (·.1) ++ route.down) := by
  rw [← route.map_holder_crossings, ← Tree.crossings_of_delivery found delivered, List.map_map]
  rfl

theorem graph_enter {producer : Producer} {consumer : NodeId}
    (found : tree.route producer.home consumer = .ok route)
    (delivered : tree.delivery producer consumer = .ok delivery) (before : Wiring)
    (consumption : Consumption) : (before.enter tree consumption delivery).graph =
      before.graph.addAll (route.across.toList.map (fun pair => (pair.2, pair.1))) := by
  obtain ⟨_, same, _, travelled⟩ := Tree.delivery_eq_ok delivered
  cases Except.ok.inj (found.symm.trans same)
  rw [← Tree.dependencies_of_journey travelled]
  exact graph_foldl_record tree delivery.hops before

/-- Entering a delivery along its route has the effect of a call. -/
theorem effect_enter (wellFormed : tree.WellFormed)
    (found : tree.route reference.producer.home reference.consumerStack = .ok route)
    (delivered : tree.delivery reference.producer reference.consumerStack = .ok delivery)
    (before : Wiring) : Effect tree reference route delivery before
      (before.enter tree (reference.leaf, reference.consumerStack) delivery) := by
  have holders := holders_of_delivery found delivered
  have distinct : (delivery.hops.map (·.crossing.holder)).Nodup := by
    rw [holders, ← route.map_holder_crossings]
    exact wellFormed.nodup_holders found
  have got : ∀ {hop}, hop ∈ delivery.hops →
      (before.enter tree (reference.leaf, reference.consumerStack) delivery).stateOf
        hop.crossing.holder = (before.stateOf hop.crossing.holder).note tree hop :=
    fun isHop => stateOf_enter_of_mem tree before _ distinct isHop
  constructor
  case crossings => exact Tree.crossings_of_delivery found delivered
  case elsewhere =>
    intro stack notUp notDown notAcross
    refine get?_states_enter tree before _ ?_
    rw [holders]
    simpa [notUp, notDown] using notAcross
  case kept => exact within_enter tree before _ distinct
  case noted => rfl
  case up =>
    intro stack member
    obtain ⟨passage, isHop⟩ :=
      Tree.exists_hop_of_crossing found delivered (Route.out_mem_crossings.mpr member)
    exact ⟨passage, isHop, got isHop ▸ StackWiring.gainsOutput_note _ rfl⟩
  case down =>
    intro stack member
    obtain ⟨passage, isHop⟩ :=
      Tree.exists_hop_of_crossing found delivered (Route.into_mem_crossings.mpr member)
    exact ⟨passage, isHop, got isHop ▸ StackWiring.gainsParameter_note _ rfl⟩
  case across =>
    intro exporter importer goesAcross
    obtain ⟨passage, isHop⟩ :=
      Tree.exists_hop_of_crossing found delivered (Route.across_mem_crossings.mpr goesAcross)
    exact ⟨passage, isHop, got isHop ▸ StackWiring.gainsOutput_note _ rfl⟩
  case dependencies =>
    intro stack
    rw [graph_enter found delivered, Route.newDependencies]
    cases route.across with
    | none => exact (List.append_nil _).symm
    | some pair => exact before.graph.dependenciesOf_addDependency_append pair.2 pair.1 stack
  case named =>
    intro stack name known
    rw [graph_enter found delivered]
    cases route.across with
    | none => exact known
    | some pair => exact DeployGraph.named_addDependency known

end Wiring

namespace Application

/-- A call that fails leaves the wiring as it was. Where there is a route it does not fail, and it
writes along the route and nowhere else: one name at each border, which is new unless it was
taken. -/
theorem call_changes_its_route (bundler : Asset.Bundler) (steps : List BuildStep)
    (before : Wiring) (reference : Reference) :
    (∀ cause after, (Wiring.attempt (build bundler steps).tree reference).run before =
      .error cause after → after = before) ∧
    ∀ route, (build bundler steps).tree.route reference.producer.home reference.consumerStack =
        .ok route →
      ∃ delivery after, (build bundler steps).tree.delivery reference.producer
          reference.consumerStack = .ok delivery ∧
        (Wiring.attempt (build bundler steps).tree reference).run before =
          .ok route.boundary after ∧
        Wiring.Effect (build bundler steps).tree reference route delivery before after ∧
        ((∀ hop ∈ delivery.hops, hop.IsFresh before) → Wiring.OneMore route before after) := by
  have wellFormed := wellFormed_build bundler steps
  constructor
  · intro cause after failed
    rw [Wiring.run_attempt wellFormed] at failed
    split at failed
    · cases failed
    · cases failed
      rfl
  · intro route found
    obtain ⟨delivery, delivered⟩ := wellFormed.exists_delivery found
    have effect := Wiring.effect_enter wellFormed found delivered before
    obtain ⟨_, same, sameBoundary, _⟩ := Tree.delivery_eq_ok delivered
    cases Except.ok.inj (found.symm.trans same)
    refine ⟨delivery, _, delivered, ?_, effect, effect.oneMore⟩
    rw [Wiring.run_attempt wellFormed, delivered, ← sameBoundary]

/-- A relay takes its value over three borders, with a name for each. -/
theorem relay_changes_its_route :
    ∃ reference delivery after,
      (build Asset.byPath relay).tree.referenceBetween (.construct 3 "Arn") 6 5 =
          .ok (some reference) ∧
        (build Asset.byPath relay).tree.route reference.producer.home reference.consumerStack =
          .ok ⟨.crossTopLevelSibling, [2], some (1, 4), [5]⟩ ∧
        (Wiring.attempt (build Asset.byPath relay).tree reference).run (.start .empty) =
          .ok .crossTopLevelSibling after ∧
        Wiring.Effect (build Asset.byPath relay).tree reference
          ⟨.crossTopLevelSibling, [2], some (1, 4), [5]⟩ delivery (.start .empty) after ∧
        Wiring.OneMore ⟨.crossTopLevelSibling, [2], some (1, 4), [5]⟩ (.start .empty) after := by
  obtain ⟨reference, found, routed⟩ := exists_relayed
  obtain ⟨delivery, after, _, ran, effect, oneMore⟩ :=
    (call_changes_its_route Asset.byPath relay (.start .empty) reference).2 _ routed
  exact ⟨reference, delivery, after, found, routed, ran, effect,
    oneMore fun hop _ => hop.isFresh_start .empty⟩

end Application

end StackSynth
