/-
This file holds the assets of an application. Assets are declared on top-level stacks, whatever
stack they were added in, and on one stack equal content is one asset: the first registration
decides how it is packaged and where it is found.
-/

import StackSynth.Naming
import StackSynth.Deferred.Leaf
import StackSynth.Template.Basic

namespace StackSynth.Asset

/-- An asset of a top-level stack. -/
structure Record where
  hash : ContentHash
  packaging : Packaging
  /-- Where the publisher finds the content. -/
  path : String
deriving DecidableEq, Repr

namespace Record

/-- The parameter that receives the value of a slot. -/
def parameterName (record : Record) (slot : Slot) : String :=
  Naming.assetParameterName record.hash slot.name

/-- The parameter that receives the value of each slot, by the name of the slot. -/
def parameterNames (record : Record) : SortedMap String String :=
  SortedMap.ofList (record.packaging.slots.map (fun slot => (slot.name, record.parameterName slot)))

/-- The record as it is written. -/
def toJson (record : Record) : Json :=
  .object [("hash", .string record.hash), ("packaging", .string record.packaging.name),
    ("path", .string record.path)]

end Record

/-- The assets of each top-level stack, in the order of their first registration. -/
structure Registry where
  byStack : SortedMap NodeId (List Record)

namespace Registry

/-- The registry without assets. -/
def empty : Registry := ⟨∅⟩

/-- The assets of a stack. -/
def assetsOf (registry : Registry) (stack : NodeId) : List Record :=
  (registry.byStack.get? stack).getD []

/-- The asset of a stack with given content. -/
def find? (registry : Registry) (stack : NodeId) (hash : ContentHash) : Option Record :=
  (registry.assetsOf stack).find? (fun record => record.hash = hash)

/-- The registry with an asset, and whether its content is new to the stack. -/
def register (registry : Registry) (stack : NodeId) (record : Record) : Registry × Bool :=
  if (registry.find? stack record.hash).isSome then (registry, false)
  else (⟨registry.byStack.insert stack (registry.assetsOf stack ++ [record])⟩, true)

/-- The parameters that a stack declares for its assets. -/
def parametersOf (registry : Registry) (stack : NodeId) : SortedMap String ParameterDecl :=
  SortedMap.ofList ((registry.assetsOf stack).flatMap (fun record =>
    record.packaging.slots.map (fun slot =>
      (record.parameterName slot,
        { ParameterDecl.string with description := some (slot.description record.hash) }))))

/-- The number of assets on all stacks. -/
def size (registry : Registry) : Nat := registry.byStack.values.flatten.length

end Registry

end StackSynth.Asset
