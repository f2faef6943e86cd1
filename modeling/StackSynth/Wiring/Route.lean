/-
This file holds the way that a value takes from its home stack to the stack that consumes it.
Between the nested stacks of one top-level stack it goes up to the nearest common stack and down
from there; between two top-level stacks it goes up to the first, across by an export, and down
from the second.
-/

import StackSynth.Construct.Tree

namespace StackSynth

/-- How a home stack and a consuming stack lie to each other. -/
inductive Boundary where
  | sameStack
  | ancestorToNestedDescendant
  | nestedDescendantToAncestor
  | crossTopLevelSibling
  | siblingNestedUnderSharedParent
deriving DecidableEq, Repr

/-- The name of a boundary. -/
def Boundary.name : Boundary → String
  | .sameStack => "same-stack"
  | .ancestorToNestedDescendant => "ancestor-to-nested-descendant"
  | .nestedDescendantToAncestor => "nested-descendant-to-ancestor"
  | .crossTopLevelSibling => "cross-top-level-sibling"
  | .siblingNestedUnderSharedParent => "sibling-nested-under-shared-parent"

/-- The stacks that a value passes through. -/
structure Route where
  boundary : Boundary
  /-- The nested stacks that show the value to the stack around them, innermost first. -/
  up : List NodeId
  /-- The top-level stacks that export and import the value. -/
  across : Option (NodeId × NodeId)
  /-- The nested stacks that receive the value from the stack around them, outermost first. -/
  down : List NodeId
deriving DecidableEq, Repr

/-- The route that passes through nothing. -/
def Route.stay : Route := ⟨.sameStack, [], none, []⟩

/-- The boundary within a top-level stack, by the ways up and down. -/
def Boundary.within (up down : List NodeId) : Boundary :=
  match up, down with
  | [], _ :: _ => .ancestorToNestedDescendant
  | _ :: _, [] => .nestedDescendantToAncestor
  | _, _ => .siblingNestedUnderSharedParent

namespace Tree

/-- The stacks around a stack, itself first. -/
def requireChain (tree : Tree) (stack : NodeId) : Except ResolveError (List NodeId) :=
  let chain := tree.stackChain stack
  if chain.head? = some stack then .ok chain else .error (.noEnclosingStack (tree.path stack))

/-- The route of a value from its home stack to a consuming stack. -/
def route (tree : Tree) (home consumer : NodeId) : Except ResolveError Route := do
  if home = consumer then return .stay
  let homeChain ← tree.requireChain home
  let consumerChain ← tree.requireChain consumer
  match homeChain.getLast?, consumerChain.getLast? with
  | some homeTop, some consumerTop =>
    if homeTop ≠ consumerTop then
      return ⟨.crossTopLevelSibling, homeChain.dropLast, some (homeTop, consumerTop),
        consumerChain.dropLast.reverse⟩
    match homeChain.find? (fun stack => consumerChain.contains stack) with
    | none => throw (.unknownConstruct home)
    | some shared =>
      let up := homeChain.takeWhile (· ≠ shared)
      let down := (consumerChain.takeWhile (· ≠ shared)).reverse
      return ⟨.within up down, up, none, down⟩
  | _, _ => throw (.unknownConstruct home)

end Tree

end StackSynth
