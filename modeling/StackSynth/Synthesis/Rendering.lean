/-
This file renders the template of a stack. The constructs that belong to the stack are declared in
the order of the tree, each under its logical id, and a nested stack as the resource that embeds
it. Behind them come what wiring has added to the stack and, for a top-level stack, the parameters
of its assets. A name that is taken in its section is an error, so nothing is ever lost.
-/

import StackSynth.Synthesis.Error
import StackSynth.Template.Declaration
import StackSynth.Wiring.View

namespace StackSynth

/-- The template of a nested stack as it is embedded in the stack around it. -/
structure EmbeddedTemplate where
  /-- The document that holds the template. -/
  file : String
  template : Template
  /-- The address of the published template. -/
  location : Deferred

/-- What rendering reads besides the tree. -/
structure Rendering where
  wiring : Wiring
  /-- The templates of the nested stacks that are rendered already. -/
  embedded : SortedMap NodeId EmbeddedTemplate

namespace Rendering

/-- The type of the resource that embeds a nested stack. -/
def nestedStackType : String := "AWS::CloudFormation::Stack"

/-- A deferred value as a stack writes it. -/
def write (rendering : Rendering) (tree : Tree) (stack : NodeId) (value : Deferred) :
    Except SynthesisError Template.Value :=
  (value.resolve (tree.view rendering.wiring.table stack)).mapError .resolve

/-- The values that the embedding resource of a nested stack supplies: none are not written. -/
def suppliedProperty (received : SortedMap String Template.Value) :
    List (String × Template.Value) :=
  if received.isEmpty then [] else [("Parameters", .object received.entries)]

/-- The resource that embeds a nested stack in a stack. -/
def embeddingResource (rendering : Rendering) (tree : Tree) (stack nested : NodeId) :
    Except SynthesisError ResourceDecl := do
  match rendering.embedded.get? nested with
  | none => throw (.unlocated (tree.path nested))
  | some embedded =>
    let location ← rendering.write tree stack embedded.location
    return ⟨nestedStackType,
      ("TemplateURL", location) :: suppliedProperty (rendering.wiring.stateOf nested).received⟩

/-- What a construct that belongs to a stack declares there, and under which name. Groups and
assets declare nothing. -/
def declarationOf (rendering : Rendering) (tree : Tree) (stack member : NodeId) :
    Except SynthesisError (Option (String × Declaration)) := do
  match (tree.get? member).map Node.construct with
  | some (.parameter declaration) =>
    let name ← (tree.logicalId member).mapError .construct
    return some (name, .parameter declaration)
  | some (.resource resource) =>
    let properties ←
      (Deferred.resolveMembers (tree.view rendering.wiring.table stack)
        resource.properties).mapError .resolve
    let name ← (tree.logicalId member).mapError .construct
    return some (name, .resource ⟨resource.type, properties⟩)
  | some (.output spec) =>
    let value ← rendering.write tree stack spec.value
    let name ← (tree.logicalId member).mapError .construct
    return some (name, .output ⟨spec.description, value, spec.exported⟩)
  | some .nestedStack =>
    let resource ← rendering.embeddingResource tree stack member
    let name ← (tree.embeddingId member).mapError .construct
    return some (name, .resource resource)
  | _ => return none

/-- Adds a declaration to the template of a stack under a name that must be free. -/
def declare (tree : Tree) (stack : NodeId) (template : Template) (name : String)
    (declaration : Declaration) : Except SynthesisError Template :=
  if template.declares name declaration then
    .error (.duplicateLogicalId (tree.path stack) declaration.kind name)
  else .ok (template.insert name declaration)

/-- Adds what a construct declares to the template of its stack. -/
def declareMember (rendering : Rendering) (tree : Tree) (stack : NodeId) (template : Template)
    (member : NodeId) : Except SynthesisError Template := do
  match ← rendering.declarationOf tree stack member with
  | none => return template
  | some (name, declaration) => declare tree stack template name declaration

/-- What is declared besides constructs: what wiring has added and the parameters of assets. -/
def generated (wiring : StackWiring) (assetParameters : SortedMap String ParameterDecl) :
    List (String × Declaration) :=
  wiring.parameters.entries.map (fun entry => (entry.1, .parameter entry.2))
    ++ wiring.outputs.entries.map (fun entry => (entry.1, .output entry.2))
    ++ assetParameters.entries.map (fun entry => (entry.1, .parameter entry.2))

/-- The template of a stack. -/
def template (rendering : Rendering) (tree : Tree) (stack : NodeId)
    (assetParameters : SortedMap String ParameterDecl) : Except SynthesisError Template := do
  let template ←
    (tree.membersOf stack).foldlM (rendering.declareMember tree stack) Template.empty
  (generated (rendering.wiring.stateOf stack) assetParameters).foldlM
    (fun template added => declare tree stack template added.1 added.2) template

end Rendering

end StackSynth
