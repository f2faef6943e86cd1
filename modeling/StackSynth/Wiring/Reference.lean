/-
This file finds the references of an application: the places where a value is consumed in another
stack than the one in which it is at home. The tree is gone through in its order and every
construct in the order of its properties, and a leaf that a construct consumes several times is
one reference.
-/

import StackSynth.Wiring.Producer

namespace StackSynth

/-- A value that is consumed away from home. -/
structure Reference where
  leaf : Leaf
  producer : Producer
  /-- The construct that consumes the value. -/
  consumer : NodeId
  /-- The stack whose template holds the value. -/
  consumerStack : NodeId
deriving Repr

namespace Tree

/-- The reference by which a construct consumes a leaf in a stack; none if the stack needs no
wiring for it. -/
def referenceBetween (tree : Tree) (leaf : Leaf) (consumer consumerStack : NodeId) :
    Except ResolveError (Option Reference) := do
  if (leaf.ownIdentity? consumerStack).isSome then return none
  let producer ← tree.producer leaf
  if producer.home = consumerStack then return none
  return some ⟨leaf, producer, consumer, consumerStack⟩

/-- The leaves that a construct consumes. A container image in a nested stack consumes its image
name even if nothing reads it, so that the nested template always receives it. -/
def consumedBy (tree : Tree) (node : NodeId) : List Leaf :=
  match (tree.get? node).map Node.construct with
  | some (.resource resource) => Deferred.leavesOfMembers resource.properties
  | some (.output spec) => spec.value.leaves
  | some (.asset hash .containerImage) =>
    match tree.stackOf? node, tree.topLevelOf? node with
    | some stack, some top => if tree.isNested stack then [.asset top hash .imageName] else []
    | _, _ => []
  | _ => []

/-- The references among the leaves that a construct consumes in its stack. -/
def referencesAmong (tree : Tree) (consumer consumerStack : NodeId) :
    List Leaf → List Leaf → Except ResolveError (List Reference)
  | _, [] => .ok []
  | seen, leaf :: rest => do
    if seen.contains leaf then tree.referencesAmong consumer consumerStack seen rest
    else
      match ← tree.referenceBetween leaf consumer consumerStack with
      | none => tree.referencesAmong consumer consumerStack seen rest
      | some reference =>
        let references ← tree.referencesAmong consumer consumerStack (leaf :: seen) rest
        return reference :: references

/-- The references of one construct. -/
def referencesOf (tree : Tree) (node : NodeId) : Except ResolveError (List Reference) :=
  match tree.consumedBy node with
  | [] => .ok []
  | consumed =>
    match tree.stackOf? node with
    | some stack => tree.referencesAmong node stack [] consumed
    | none => .error (.noEnclosingStack (tree.path node))

/-- All references of the application. -/
def references (tree : Tree) : Except ResolveError (List Reference) := do
  return (← tree.preorder.mapM tree.referencesOf).flatten

end Tree

end StackSynth
