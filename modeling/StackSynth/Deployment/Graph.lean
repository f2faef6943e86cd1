/-
This file holds the order in which top-level stacks are deployed. A stack depends on the stacks
whose exports it imports; it is deployed in the first wave behind all of them. A dependency
relation with a cycle has no such waves, and the stacks on its cycles are the reason. The stacks
are kept in a directed graph, whose arrows run from a stack to those that depend on it.
-/

import StackSynth.Deployment.Digraph

namespace StackSynth

/-- Why stacks have no order of deployment. -/
inductive DeployError where
  /-- The stacks of these names depend on themselves, through others or directly. -/
  | cycle (members : List String)
  | unknownStack (stack : NodeId)
deriving DecidableEq, Repr

/-- The wording of an error. -/
def DeployError.message : DeployError → String
  | .cycle members => "dependency cycle between stacks: " ++ " -> ".intercalate members
  | .unknownStack stack =>
    "stack " ++ nodeName stack ++ " is not part of the dependency graph"

/-- Stacks and what they depend on. -/
structure DeployGraph where
  /-- The stacks, with an arrow from each stack to every stack that depends on it. -/
  digraph : StackDigraph
  /-- The stacks, each with the name it was added under, if it was added before it was mentioned
  in a dependency. -/
  stackNames : SortedMap NodeId (Option String)
  /-- The stacks each stack depends on, in the order in which they were found. -/
  dependencies : SortedMap NodeId (List NodeId)

namespace DeployGraph

/-- The graph without stacks. -/
def empty : DeployGraph := ⟨.empty, ∅, ∅⟩

/-- The graph with a stack, which may have a name. A stack that is already in it stays as it
is. -/
def withStack (graph : DeployGraph) (stack : NodeId) (name : Option String) : DeployGraph :=
  { graph with
    digraph :=
      if graph.stackNames.contains stack then graph.digraph else graph.digraph.addNode stack
    stackNames := graph.stackNames.insertIfNew stack name }

/-- The graph with a stack under a name. -/
def addStack (graph : DeployGraph) (stack : NodeId) (name : String) : DeployGraph :=
  graph.withStack stack (some name)

/-- The stacks that a stack depends on. -/
def dependenciesOf (graph : DeployGraph) (stack : NodeId) : List NodeId :=
  (graph.dependencies.get? stack).getD []

/-- The graph with a new dependency between two of its stacks. -/
def connect (graph : DeployGraph) (dependent dependency : NodeId) : DeployGraph :=
  { graph with
    digraph := graph.digraph.addArrow dependency dependent
    dependencies :=
      graph.dependencies.insert dependent (graph.dependenciesOf dependent ++ [dependency]) }

/-- The graph in which `dependent` is deployed behind `dependency`, and whether that is new. -/
def addDependency (graph : DeployGraph) (dependent dependency : NodeId) : DeployGraph × Bool :=
  if (graph.dependenciesOf dependent).contains dependency then (graph, false)
  else
    (((graph.withStack dependency none).withStack dependent none).connect dependent dependency,
      true)

/-- The name of a stack. -/
def name (graph : DeployGraph) (stack : NodeId) : String :=
  match graph.stackNames.get? stack with
  | some (some name) => name
  | _ => nodeName stack

/-- Every stack with every stack it depends on, by dependent stack. -/
def edges (graph : DeployGraph) : List (NodeId × NodeId) :=
  graph.dependencies.entries.flatMap (fun entry => entry.2.map (fun stack => (entry.1, stack)))

/-- The number of dependencies. -/
def edgeCount (graph : DeployGraph) : Nat := graph.digraph.arrows.length

/-- The names of the stacks that a stack of the graph depends on. -/
def dependencyNames (graph : DeployGraph) (stack : NodeId) : Except DeployError (List String) :=
  if graph.stackNames.contains stack then .ok ((graph.dependenciesOf stack).map graph.name)
  else .error (.unknownStack stack)

/-! ### Cycles and waves -/

/-- The stacks on cycles, in the order of creation. -/
def onCycles (graph : DeployGraph) (algorithms : GraphAlgorithms) : List NodeId :=
  StackDigraph.ascending
    ((algorithms.components graph.digraph).filter graph.digraph.isCyclic).flatten

/-- Refuses a graph with cycles, naming the stacks on them. -/
def verifyAcyclicBy (graph : DeployGraph) (algorithms : GraphAlgorithms) :
    Except DeployError Unit :=
  match algorithms.topologicalOrder? graph.digraph with
  | some _ => .ok ()
  | none => .error (.cycle ((graph.onCycles algorithms).map graph.name))

/-- The stacks in waves: each in the first wave behind all it depends on. -/
def wavesBy (graph : DeployGraph) (algorithms : GraphAlgorithms) :
    Except DeployError (List (List NodeId)) :=
  match graph.digraph.levels with
  | some waves => .ok waves
  | none => do
    graph.verifyAcyclicBy algorithms
    throw (.cycle [])

/-- The stacks in an order in which each comes behind all it depends on. -/
def orderBy (graph : DeployGraph) (algorithms : GraphAlgorithms) :
    Except DeployError (List NodeId) := do
  graph.verifyAcyclicBy algorithms
  return (← graph.wavesBy algorithms).flatten

/-- Refuses a graph with cycles, by the plain algorithms. -/
def verifyAcyclic (graph : DeployGraph) : Except DeployError Unit :=
  graph.verifyAcyclicBy .plain

/-- The stacks in waves, by the plain algorithms. -/
def waves (graph : DeployGraph) : Except DeployError (List (List NodeId)) :=
  graph.wavesBy .plain

/-- The stacks in the order of their waves, by the plain algorithms. -/
def order (graph : DeployGraph) : Except DeployError (List NodeId) :=
  graph.orderBy .plain

end DeployGraph

end StackSynth
