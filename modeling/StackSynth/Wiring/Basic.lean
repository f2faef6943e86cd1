/-
This file wires references. A value that leaves its home stack is shown as an output by every
nested stack on its way up, exported and imported between top-level stacks, and received as a
parameter by every nested stack on its way down. What is declared for it is named after its
structural identity and declared only where the name is still free, so wiring a reference again
changes nothing.
-/

import StackSynth.Deployment.Graph
import StackSynth.Wiring.Reference
import StackSynth.Wiring.Route

namespace StackSynth

/-- What wiring adds to the template of a stack. -/
structure StackWiring where
  /-- The parameters that the stack declares. -/
  parameters : SortedMap String ParameterDecl
  /-- The values that the stack around it supplies for its parameters. -/
  received : SortedMap String Template.Value
  /-- The outputs by which the stack shows or exports values. -/
  outputs : SortedMap String OutputDecl
  /-- A value is supplied for every parameter and for nothing else; all of them carry strings. -/
  supplied : parameters = received.mapValues (fun _ => .string)

namespace StackWiring

/-- Nothing added. -/
def empty : StackWiring := ⟨∅, ∅, ∅, rfl⟩

/-- The stack with a parameter that receives `value`, unless it has one of that name. -/
def receive (wiring : StackWiring) (name : String) (value : Template.Value) : StackWiring :=
  if wiring.parameters.contains name then wiring
  else
    { wiring with
      parameters := wiring.parameters.insert name .string
      received := wiring.received.insert name value
      supplied := by rw [wiring.supplied, SortedMap.mapValues_insert] }

/-- The stack with an output, unless it has one of that name. -/
def declare (wiring : StackWiring) (name : String) (declaration : OutputDecl) : StackWiring :=
  { wiring with outputs := wiring.outputs.insertIfNew name declaration }

theorem contains_parameters (wiring : StackWiring) (name : String) :
    wiring.parameters.contains name = wiring.received.contains name := by
  rw [wiring.supplied, SortedMap.contains_mapValues]

/-- What is received twice under a name is received as it was the first time. -/
theorem received_receive (wiring : StackWiring) (name : String) (value : Template.Value) :
    (wiring.receive name value).received = wiring.received.insertIfNew name value := by
  rw [receive, contains_parameters, SortedMap.insertIfNew]
  split <;> rfl

theorem outputs_receive (wiring : StackWiring) (name : String) (value : Template.Value) :
    (wiring.receive name value).outputs = wiring.outputs := by
  rw [receive]
  split <;> rfl

/-- What a stack has got is told by what it receives and what it shows. -/
theorem ext_received {first second : StackWiring} (received : first.received = second.received)
    (outputs : first.outputs = second.outputs) : first = second := by
  obtain ⟨parameters, values, shown, supplied⟩ := first
  obtain ⟨_, _, _, suppliedToo⟩ := second
  cases received
  cases outputs
  cases supplied
  cases suppliedToo
  rfl

end StackWiring

/-- A leaf as it is consumed in a stack. -/
abbrev Consumption := Leaf × NodeId

instance : Ord Consumption := lexOrd

/-- What wiring has added to an application. -/
structure Wiring where
  /-- What each stack has got. -/
  states : SortedMap NodeId StackWiring
  /-- How each wired leaf is written in each stack that consumes it. -/
  table : SortedMap Consumption Template.Value
  /-- Which top-level stacks import from which. -/
  graph : DeployGraph

/-- A value on its way: how it is written in the stack it has come to, and the structural identity
from which the next name is made. -/
structure Passage where
  path : List String
  attr : String
  value : Template.Value

/-- A value at home. -/
def Producer.passage (producer : Producer) : Passage :=
  ⟨producer.path, producer.attr, producer.native⟩

namespace Wiring

/-- Nothing wired between the stacks of a graph. -/
def start (graph : DeployGraph) : Wiring := ⟨∅, ∅, graph⟩

/-- What a stack has got. -/
def stateOf (wiring : Wiring) (stack : NodeId) : StackWiring :=
  (wiring.states.get? stack).getD .empty

/-- The wiring after a change to one stack. -/
def update (wiring : Wiring) (stack : NodeId) (change : StackWiring → StackWiring) : Wiring :=
  { wiring with states := wiring.states.insert stack (change (wiring.stateOf stack)) }

/-- A part of wiring a reference. It changes the wiring in place: if it fails, what it has changed
until then stays changed. -/
abbrev Action : Type → Type := EStateM ResolveError Wiring

/-- An answer that may be an error, given without a change. -/
def answer {α : Type} : Except ResolveError α → Action α
  | .ok value => pure value
  | .error cause => throw cause

/-- What comes of an action: where it fails, the wiring is given up. -/
def outcome {α : Type} (action : Action α) (wiring : Wiring) : Except ResolveError (α × Wiring) :=
  match action.run wiring with
  | .ok value after => .ok (value, after)
  | .error cause _ => .error cause

section Outcomes

variable {α β : Type} (wiring : Wiring)

/-- An action behind another one goes on from where the first has come to. -/
theorem outcome_bind (first : Action α) (next : α → Action β) :
    outcome (first >>= next) wiring =
      outcome first wiring >>= fun done => outcome (next done.1) done.2 := by
  rw [outcome, outcome, EStateM.run_bind]
  cases first.run wiring with
  | ok value after => rfl
  | error cause _ => rfl

theorem outcome_answer (result : Except ResolveError α) :
    outcome (answer result) wiring = result.map (·, wiring) := by
  cases result <;> rfl

end Outcomes

/-- Takes a value out of a nested stack: the stack shows it as an output, and the stack around it
reads that output off the embedding resource. -/
def carryUp (tree : Tree) (stack : NodeId) (passage : Passage) : Action Passage := do
  let orphan : ConstructError → ResolveError := fun _ => .noEnclosingStack (tree.path stack)
  let resource ← answer ((tree.embeddingId stack).mapError orphan)
  let path ← answer ((tree.embeddingPath stack).mapError orphan)
  let name := Naming.outputName passage.path passage.attr
  modify (·.update stack (·.declare name ⟨none, passage.value, none⟩))
  return ⟨path, Naming.embeddedOutput name, .nestedOutput resource name⟩

/-- Takes a value from one top-level stack to another, which from now on is deployed behind the
first: the first exports it under a name made from what is written for it, and the other imports
it by that name. -/
def carryAcross (tree : Tree) (exporter importer : NodeId) (passage : Passage) :
    Action Passage := do
  let output := Naming.exportOutputName passage.value.written
  let name := Naming.exportName (tree.stackName exporter) output
  modify (·.update exporter (·.declare output ⟨none, passage.value, some name⟩))
  modify fun wiring =>
    { wiring with graph := (wiring.graph.addDependency importer exporter).1 }
  return { passage with value := .importValue name }

/-- Takes a value into a nested stack, which receives it as a parameter. -/
def carryDown (tree : Tree) (stack : NodeId) (passage : Passage) : Action Passage := do
  let name := Naming.parameterName passage.path passage.attr
  modify (·.update stack (·.receive name passage.value))
  return ⟨tree.pathComponents stack ++ [name], "Ref", .ref name⟩

/-- Takes a value along a route: out of nested stacks, innermost first, across, and into nested
stacks, outermost first. -/
def carry (tree : Tree) (route : Route) (passage : Passage) : Action Passage := do
  let above ← route.up.foldlM (fun passage stack => carryUp tree stack passage) passage
  let beside ← match route.across with
    | none => pure above
    | some (exporter, importer) => carryAcross tree exporter importer above
  route.down.foldlM (fun passage stack => carryDown tree stack passage) beside

/-- Wires a reference in place: takes the value from its home to the stack that consumes it and
notes how it is written there. -/
def attempt (tree : Tree) (reference : Reference) : Action Boundary := do
  let route ← answer (tree.route reference.producer.home reference.consumerStack)
  let passage ← carry tree route reference.producer.passage
  modify fun wiring =>
    { wiring with
      table := wiring.table.insert (reference.leaf, reference.consumerStack) passage.value }
  return route.boundary

/-- Wires a reference. -/
def wire (tree : Tree) (wiring : Wiring) (reference : Reference) :
    Except ResolveError (Boundary × Wiring) :=
  outcome (attempt tree reference) wiring

/-- Wires references one after the other and notes the boundary of each. -/
def wireAll (tree : Tree) : Wiring → List Reference →
    Except ResolveError (List (Reference × Boundary) × Wiring)
  | wiring, [] => .ok ([], wiring)
  | wiring, reference :: rest => do
    let (boundary, wiring) ← wiring.wire tree reference
    let (wired, wiring) ← wireAll tree wiring rest
    return ((reference, boundary) :: wired, wiring)

end Wiring

end StackSynth
