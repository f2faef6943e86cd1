/-
This file tells where the value of a leaf comes from: the stack in which it is at home, how that
stack writes it, and the structural identity from which names are made when the value leaves home.
-/

import StackSynth.Construct.Tree

namespace StackSynth

/-- The pseudo parameter that a leaf is to a stack: only the identity of that stack is one. -/
def Leaf.ownIdentity? (stack : NodeId) : Leaf → Option PseudoParameter
  | .stack owner attr => if owner = stack then some attr.pseudo else none
  | _ => none

/-- The origin of a value. -/
structure Producer where
  /-- The stack in which the value needs no wiring. -/
  home : NodeId
  /-- The path of what produces the value. -/
  path : List String
  attr : String
  /-- The value as its home stack writes it. -/
  native : Template.Value
deriving Repr

namespace Tree

/-- The origin of an attribute of a construct: only resources have attributes, and a parameter
has its identity. -/
def constructProducer (tree : Tree) (node : NodeId) (attr : String) :
    Except ResolveError Producer := do
  match tree.get? node with
  | none => throw (.unknownConstruct node)
  | some found =>
    let orphan : ResolveError := .noEnclosingStack (tree.path node)
    match tree.stackOf? node with
    | none => throw orphan
    | some home =>
      let name ← (tree.logicalId node).mapError (fun _ => orphan)
      let produced (native : Template.Value) : Producer :=
        ⟨home, tree.pathComponents node, attr, native⟩
      match found.construct with
      | .resource _ =>
        return produced (if attr = "Ref" then .ref name else .getAtt name attr)
      | .parameter _ =>
        if attr = "Ref" then return produced (.ref name)
        else throw (.notAProducer (tree.path node))
      | _ => throw (.notAProducer (tree.path node))

/-- The name under which the identity of a stack is passed on. -/
def identityAttribute : StackAttribute → String
  | .id => "StackId"
  | .name => "StackName"

/-- The identity of a nested stack as the stack around it sees it. The identity of the embedding
resource is the address of the nested stack, whose second part is its name. -/
def embeddedIdentity (resource : String) : StackAttribute → Template.Value
  | .id => .ref resource
  | .name => .select 1 (.split "/" (.ref resource))

/-- The origin of the identity of a stack. That of a top-level stack is known only to itself;
that of a nested stack is at home in the stack around it, through the resource that embeds it. -/
def stackProducer (tree : Tree) (stack : NodeId) (attr : StackAttribute) :
    Except ResolveError Producer := do
  match tree.get? stack with
  | none => throw (.unknownConstruct stack)
  | some found =>
    if !found.construct.isStack then throw (.notAProducer (tree.path stack))
    if !found.construct.isNestedStack then
      return ⟨stack, tree.pathComponents stack, identityAttribute attr, .ref attr.pseudo.name⟩
    let orphan : ResolveError := .noEnclosingStack (tree.path stack)
    match tree.parentStack? stack with
    | none => throw orphan
    | some home =>
      let resource ← (tree.embeddingId stack).mapError (fun _ => orphan)
      let path ← (tree.embeddingPath stack).mapError (fun _ => .unknownConstruct stack)
      return ⟨home, path, identityAttribute attr, embeddedIdentity resource attr⟩

/-- The origin of a leaf. The slots of an asset are at home in its top-level stack, as
parameters. -/
def producer (tree : Tree) : Leaf → Except ResolveError Producer
  | .construct node attr => tree.constructProducer node attr
  | .asset stack hash slot =>
    .ok {
      home := stack
      path := tree.pathComponents stack ++ [Naming.assetParametersComponent, hash, slot.name]
      attr := "Ref"
      native := .ref (Naming.assetParameterName hash slot.name) }
  | .stack stack attr => tree.stackProducer stack attr

end Tree

end StackSynth
