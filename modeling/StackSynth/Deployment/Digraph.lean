/-
This file holds directed graphs of stacks and what is asked about them: whether their arrows all
point forward in some order, which stacks can be reached from each other, and how many levels lie
behind one another. An answer to the first two can be had in many ways, so they are kept apart from
the graph; those that are given here do no more than the questions say.
-/

import StackSynth.Deferred.Leaf

namespace StackSynth

/-- A directed graph of stacks. -/
structure StackDigraph where
  /-- The stacks, in the order in which they were added. -/
  nodes : List NodeId
  /-- The arrows, each from one stack to another or to itself, in the order in which they were
  added. -/
  arrows : List (NodeId × NodeId)

namespace StackDigraph

/-- The graph without stacks. -/
def empty : StackDigraph := ⟨[], []⟩

/-- The graph with one stack more. -/
def addNode (graph : StackDigraph) (node : NodeId) : StackDigraph :=
  { graph with nodes := graph.nodes ++ [node] }

/-- The graph with one arrow more. -/
def addArrow (graph : StackDigraph) (source target : NodeId) : StackDigraph :=
  { graph with arrows := graph.arrows ++ [(source, target)] }

/-- The number of arrows into a node. -/
def incoming (graph : StackDigraph) (node : NodeId) : Nat :=
  graph.arrows.countP (fun arrow => arrow.2 = node)

/-- Where the arrows out of a node lead, once for each arrow. -/
def successors (graph : StackDigraph) (node : NodeId) : List NodeId :=
  (graph.arrows.filter (fun arrow => arrow.1 = node)).map (·.2)

/-! ### Nodes in the order of creation -/

/-- An ascending list with a node at its place. -/
def insertAscending (node : NodeId) : List NodeId → List NodeId
  | [] => [node]
  | first :: rest =>
    if node ≤ first then node :: first :: rest else first :: insertAscending node rest

/-- The same nodes, in ascending order. -/
def ascending : List NodeId → List NodeId
  | [] => []
  | node :: rest => insertAscending node (ascending rest)

theorem mem_insertAscending {node other : NodeId} {nodes : List NodeId} :
    other ∈ insertAscending node nodes ↔ other = node ∨ other ∈ nodes := by
  induction nodes with
  | nil => exact List.mem_singleton.trans (or_iff_left List.not_mem_nil).symm
  | cons first rest inductionHypothesis =>
    rw [insertAscending]
    split
    · exact List.mem_cons
    · rw [List.mem_cons, inductionHypothesis, List.mem_cons]
      exact or_left_comm

theorem mem_ascending {node : NodeId} {nodes : List NodeId} :
    node ∈ ascending nodes ↔ node ∈ nodes := by
  induction nodes with
  | nil => exact Iff.rfl
  | cons first rest inductionHypothesis =>
    rw [ascending, mem_insertAscending, inductionHypothesis, List.mem_cons]

/-! ### Levels -/

/-- The numbers of arrows with one arrow less into a node. -/
def lowered (degrees : SortedMap NodeId Nat) (node : NodeId) : SortedMap NodeId Nat :=
  match degrees.get? node with
  | some degree => degrees.insert node (degree - 1)
  | none => degrees

/-- The numbers of arrows without the arrows out of a node. -/
def release (graph : StackDigraph) (degrees : SortedMap NodeId Nat) (node : NodeId) :
    SortedMap NodeId Nat :=
  (graph.successors node).foldl lowered degrees

/-- The nodes, of those that wait, into which no arrow is left. -/
def ready (degrees : SortedMap NodeId Nat) (waiting : List NodeId) : List NodeId :=
  ascending (waiting.filter (fun node => degrees.get? node = some 0))

theorem length_removeAll_ready_lt {degrees : SortedMap NodeId Nat} {waiting : List NodeId}
    (proceeds : ready degrees waiting ≠ []) :
    (waiting.removeAll (ready degrees waiting)).length < waiting.length := by
  obtain ⟨node, isReady⟩ := List.exists_mem_of_ne_nil _ proceeds
  have isWaiting := (List.mem_filter.mp (mem_ascending.mp isReady)).1
  exact List.length_filter_lt_length_iff_exists.mpr ⟨node, isWaiting, by simp [isReady]⟩

/-- The levels of the nodes that wait: the nodes into which no arrow is left, then the levels of the
others without the arrows out of those. None if nodes wait and an arrow is left into each. -/
def levelsFrom (graph : StackDigraph) (degrees : SortedMap NodeId Nat) (waiting : List NodeId) :
    Option (List (List NodeId)) :=
  if waiting = [] then some []
  else if _ : ready degrees waiting = [] then none
  else do
    let level := ready degrees waiting
    let further ← graph.levelsFrom (level.foldl graph.release degrees) (waiting.removeAll level)
    return level :: further
termination_by waiting.length
decreasing_by exact length_removeAll_ready_lt ‹_›

/-- The levels of all nodes. -/
def levels (graph : StackDigraph) : Option (List (List NodeId)) :=
  graph.levelsFrom
    (SortedMap.ofList (graph.nodes.map (fun node => (node, graph.incoming node)))) graph.nodes

/-! ### What can be reached -/

/-- The nodes that can be reached from `known` nodes in at most the given number of steps. -/
def reach (graph : StackDigraph) : Nat → List NodeId → List NodeId
  | 0, known => known
  | steps + 1, known => graph.reach steps (known ++ known.flatMap graph.successors).eraseDups

/-- Whether one node can be reached from another. A way needs no more steps than there are
nodes. -/
def reaches (graph : StackDigraph) (source target : NodeId) : Bool :=
  (graph.reach graph.nodes.length [source]).contains target

/-- The nodes that can be reached from a node and from which it can be reached. -/
def componentOf (graph : StackDigraph) (node : NodeId) : List NodeId :=
  graph.nodes.filter (fun other => graph.reaches node other && graph.reaches other node)

/-- Whether the nodes of a component lie on cycles: there are several, or there is an arrow from
the only one to itself. -/
def isCyclic (graph : StackDigraph) (component : List NodeId) : Bool :=
  component.length > 1 || component.head?.any (fun node => graph.arrows.contains (node, node))

end StackDigraph

/-- How a directed graph is put in order and taken apart. -/
structure GraphAlgorithms where
  /-- The nodes in an order in which every arrow points forward, if there is one. -/
  topologicalOrder? : StackDigraph → Option (List NodeId)
  /-- The nodes by what can be reached from each other. -/
  components : StackDigraph → List (List NodeId)

/-- Level by level, and node by node. -/
def GraphAlgorithms.plain : GraphAlgorithms where
  topologicalOrder? graph := graph.levels.map List.flatten
  components graph := (graph.nodes.map graph.componentOf).eraseDups

end StackSynth
