/-
This file says which definitions there are as values: nested objects are sorted maps, and the
properties of a resource a map that keeps their order. Lists of members can hold a name twice, which
such maps cannot.
-/

import StackSynth.Definition.Build
import StackSynth.Proofs.Fields
import StackSynth.Proofs.Json.Canonical

namespace StackSynth.Definition

/-- Values are canonical, and no property is named twice. -/
def Content.Proper : Content → Prop
  | .resource _ _ properties =>
    (Fields.names properties).Nodup ∧ ∀ property ∈ properties, property.2.IsCanonical
  | .parameter declaration => ∀ value, declaration.default = some value → value.IsCanonical
  | .output value _ _ => value.IsCanonical
  | _ => True

/-- All constructs of the definition are proper. -/
def Proper (definition : Definition) : Prop :=
  ∀ item ∈ definition.constructs, item.content.Proper

end StackSynth.Definition
