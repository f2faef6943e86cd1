/-
This file tells how a stack writes the leaves that it consumes. Its own identity is a pseudo
parameter, what is at home in it needs no wiring, and everything else must have been wired.
-/

import StackSynth.Wiring.Basic

namespace StackSynth

/-- How a stack writes a leaf, given what is wired. -/
def Tree.view (tree : Tree) (table : SortedMap Consumption Template.Value) (stack : NodeId)
    (leaf : Leaf) : Except ResolveError Template.Value :=
  match leaf.ownIdentity? stack with
  | some pseudo => .ok (.ref pseudo.name)
  | none => do
    let producer ← tree.producer leaf
    if producer.home = stack then return producer.native
    match table.get? (leaf, stack) with
    | some value => return value
    | none => throw (.unwired leaf.text (tree.path stack))

end StackSynth
