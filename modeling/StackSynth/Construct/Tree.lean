/-
This file holds the tree of constructs. Constructs are kept in the order of their creation, each
with its parent, which came before it; so walking up always ends, and the children of a construct
are the later ones that name it, in the order of their creation. Questions about a construct that
does not exist have answers too: it has no parent and lies in no stack.
-/

import StackSynth.Construct.Basic
import StackSynth.Naming

namespace StackSynth

/-- A construct in its place. -/
structure Node where
  id : String
  parent : Option NodeId
  construct : Construct

/-- The constructs of an application, the root first. -/
structure Tree where
  nodes : Array Node

namespace Tree

/-- The construct that contains all others. -/
def rootId : NodeId := 0

/-- The tree that holds only the root. -/
def empty : Tree := ⟨#[⟨"", none, .root⟩]⟩

/-- The number of constructs. -/
def size (tree : Tree) : Nat := tree.nodes.size

/-- The construct of a number. -/
def get? (tree : Tree) (node : NodeId) : Option Node := tree.nodes[node]?

/-- The construct of a number, which must exist. -/
def find (tree : Tree) (node : NodeId) : Except ConstructError Node :=
  match tree.get? node with
  | some found => .ok found
  | none => .error (.unknownConstruct node)

/-- The parent of a construct. -/
def parent? (tree : Tree) (node : NodeId) : Option NodeId := (tree.get? node).bind Node.parent

/-- The children of a construct in the order of creation. -/
def children (tree : Tree) (node : NodeId) : List NodeId :=
  (List.range tree.size).filter (fun child => node < child && tree.parent? child = some node)

/-! ### Upwards -/

/-- A construct and those around it, innermost first, without the root. -/
def ancestors (tree : Tree) (node : NodeId) : List NodeId :=
  if node = rootId then []
  else
    node ::
      match tree.parent? node with
      | none => []
      | some parent => if parent < node then tree.ancestors parent else []
termination_by node

/-- The ids of constructs, given innermost first, from the outermost on. -/
def idsOf (tree : Tree) (nodes : List NodeId) : List String :=
  (nodes.filterMap (fun node => (tree.get? node).map Node.id)).reverse

/-- The ids on the way from the root to a construct. -/
def pathComponents (tree : Tree) (node : NodeId) : List String :=
  tree.idsOf (tree.ancestors node)

/-- Where a construct stands: the ids on the way to it between slashes. -/
def path (tree : Tree) (node : NodeId) : String := "/".intercalate (tree.pathComponents node)

/-- The id of a construct among all of the application. -/
def uniqueId (tree : Tree) (node : NodeId) : String :=
  Naming.uniqueId (tree.pathComponents node)

/-- The ids on the way from a construct around it to a construct. -/
def componentsBelow (tree : Tree) (ancestor node : NodeId) : List String :=
  tree.idsOf ((tree.ancestors node).takeWhile (· ≠ ancestor))

/-- Whether a construct is a stack. -/
def isStack (tree : Tree) (node : NodeId) : Bool :=
  match tree.get? node with
  | some found => found.construct.isStack
  | none => false

/-- Whether a construct is a nested stack. -/
def isNested (tree : Tree) (node : NodeId) : Bool :=
  match tree.get? node with
  | some found => found.construct.isNestedStack
  | none => false

/-- The kind of a construct as messages call it. -/
def kind (tree : Tree) (node : NodeId) : String :=
  match tree.get? node with
  | some found => found.construct.kind
  | none => "construct"

/-- The stacks around a construct, innermost first, itself included if it is one. -/
def stackChain (tree : Tree) (node : NodeId) : List NodeId :=
  (tree.ancestors node).filter tree.isStack

/-- The stack that a construct belongs to; a stack belongs to itself. -/
def stackOf? (tree : Tree) (node : NodeId) : Option NodeId := (tree.stackChain node).head?

/-- The innermost stack strictly around a construct. -/
def parentStack? (tree : Tree) (node : NodeId) : Option NodeId :=
  ((tree.ancestors node).tail.filter tree.isStack).head?

/-- The outermost stack around a construct. -/
def topLevelOf? (tree : Tree) (node : NodeId) : Option NodeId := (tree.stackChain node).getLast?

/-! ### Downwards -/

theorem mem_children {tree : Tree} {node child : NodeId} (member : child ∈ tree.children node) :
    child < tree.size ∧ node < child ∧ tree.parent? child = some node := by
  simpa [children] using member

/-- A construct and all below it, each before those below it, children in the order of creation.
Only constructs that `descends` accepts are entered. -/
def below (tree : Tree) (descends : NodeId → Bool) (node : NodeId) : List NodeId :=
  node ::
    if descends node then
      (tree.children node).attach.flatMap (fun child => tree.below descends child.val)
    else []
termination_by tree.size - node
decreasing_by
  obtain ⟨inTree, later, _⟩ := mem_children child.property
  exact Nat.sub_lt_sub_left (Nat.lt_trans later inTree) later

/-- All constructs, each before those below it. -/
def preorder (tree : Tree) : List NodeId := tree.below (fun _ => true) rootId

/-- The constructs that belong to a stack, and the nested stacks directly below it, each before
those below it. -/
def membersOf (tree : Tree) (stack : NodeId) : List NodeId :=
  (tree.below (fun node => node = stack || !tree.isStack node) stack).filter (· ≠ stack)

/-- All stacks, each before those below it. -/
def allStacks (tree : Tree) : List NodeId := tree.preorder.filter tree.isStack

/-- All top-level stacks in the order of the tree. -/
def topLevelStacks (tree : Tree) : List NodeId :=
  tree.allStacks.filter (fun stack => !tree.isNested stack)

/-! ### Names -/

/-- The name of a construct in the template of its stack. -/
def logicalId (tree : Tree) (node : NodeId) : Except ConstructError String :=
  match tree.parentStack? node with
  | some stack => .ok (Naming.uniqueId (tree.componentsBelow stack node))
  | none => .error (.noEnclosingStack (tree.kind node) (tree.path node))

/-- The path, below its scope, of the resource that embeds a nested stack. -/
def embeddingComponents (id : String) : List String :=
  [id ++ ".NestedStack", id ++ ".NestedStackResource"]

/-- The path of the resource that embeds a nested stack in the stack around it. -/
def embeddingPath (tree : Tree) (nested : NodeId) : Except ConstructError (List String) := do
  let node ← tree.find nested
  match node.parent with
  | none => throw (.unknownConstruct nested)
  | some scope => return tree.pathComponents scope ++ embeddingComponents node.id

/-- The name of the resource that embeds a nested stack in the template of the stack around
it. -/
def embeddingId (tree : Tree) (nested : NodeId) : Except ConstructError String := do
  let node ← tree.find nested
  match node.parent, tree.parentStack? nested with
  | some scope, some parent =>
    let above := if scope = parent then [] else tree.componentsBelow parent scope
    return Naming.uniqueId (above ++ embeddingComponents node.id)
  | _, _ => throw (.nestedStackWithoutParent (tree.path nested))

/-- The name that a stack is deployed under: the one it was given, its id if it stands directly
below the root, or else its unique id. -/
def stackName (tree : Tree) (stack : NodeId) : String :=
  match tree.get? stack with
  | some ⟨id, parent, .topLevelStack options⟩ =>
    match options.name with
    | some name => name
    | none => if parent = some rootId then id else tree.uniqueId stack
  | _ => tree.uniqueId stack

/-- Where a construct is deployed to, which is decided by its top-level stack. -/
def environment (tree : Tree) (node : NodeId) : Except ConstructError Environment :=
  match tree.topLevelOf? node with
  | none => .error (.wrongKind (tree.path node) (tree.kind node) "stack")
  | some top =>
    match tree.get? top with
    | some ⟨_, _, .topLevelStack options⟩ => .ok options.environment
    | _ => .error (.unknownConstruct top)

/-! ### Growth -/

/-- The tree with one more construct below `parent`, and its number. Whether a construct may
stand there is for the caller to decide; here only ids are checked. -/
def add (tree : Tree) (parent : NodeId) (id : String) (construct : Construct) :
    Except ConstructError (NodeId × Tree) := do
  if id = "" then throw .emptyId
  if id.toList.contains '/' then throw (.slashInId id)
  let _ ← tree.find parent
  if (tree.children parent).any (fun child => (tree.get? child).any (fun node => node.id = id)) then
    throw (.duplicateId (tree.path parent) id)
  return (tree.size, ⟨tree.nodes.push ⟨id, some parent, construct⟩⟩)

/-- The tree with another construct in the place of an existing one. -/
def replace (tree : Tree) (node : NodeId) (construct : Construct) : Tree :=
  ⟨tree.nodes.modify node (fun old => { old with construct := construct })⟩

end Tree

end StackSynth
