/-
This file holds deferred values: trees over leaves that are produced elsewhere. What a deferred
value becomes depends on the stack that consumes it, and on that only through its leaves, so
resolving takes a function from leaves to template values and puts its results in their places.
-/

import StackSynth.Deferred.Leaf
import StackSynth.Template.Value

namespace StackSynth

/-- Parameters that the deployment engine provides to every template. -/
inductive PseudoParameter where
  | accountId
  | region
  | partition
  | stackId
  | stackName
  | urlSuffix
  | noValue
deriving DecidableEq, Repr

namespace PseudoParameter

/-- The name that the engine gives to a pseudo parameter. -/
def name : PseudoParameter → String
  | .accountId => "AWS::AccountId"
  | .region => "AWS::Region"
  | .partition => "AWS::Partition"
  | .stackId => "AWS::StackId"
  | .stackName => "AWS::StackName"
  | .urlSuffix => "AWS::URLSuffix"
  | .noValue => "AWS::NoValue"

/-- All pseudo parameters. -/
def all : List PseudoParameter :=
  [.accountId, .region, .partition, .stackId, .stackName, .urlSuffix, .noValue]

/-- The pseudo parameter of a name. -/
def ofName? (name : String) : Option PseudoParameter := all.find? (fun pseudo => pseudo.name = name)

end PseudoParameter

/-- The pseudo parameter by which a stack sees its own identity. -/
def StackAttribute.pseudo : StackAttribute → PseudoParameter
  | .id => .stackId
  | .name => .stackName

/-- A value that may not be known before synthesis. -/
inductive Deferred where
  | literal (value : Json)
  | pseudo (parameter : PseudoParameter)
  | leaf (produced : Leaf)
  | join (separator : String) (parts : List Deferred)
  | select (index : Nat) (items : Deferred)
  | split (separator : String) (source : Deferred)
  | list (items : List Deferred)
  | object (members : List (String × Deferred))
deriving Repr, Inhabited, BEq

/-- Why a deferred value has no form in the stack that consumes it. -/
inductive ResolveError where
  | unknownConstruct (node : NodeId)
  | noEnclosingStack (path : String)
  | notAProducer (path : String)
  | unwired (leaf : String) (consumer : String)
deriving DecidableEq, Repr

/-- The wording of an error. -/
def ResolveError.message : ResolveError → String
  | .unknownConstruct node => "unknown construct " ++ nodeName node
  | .noEnclosingStack path => "construct '" ++ path ++ "' has no enclosing stack"
  | .notAProducer path => "construct '" ++ path ++ "' does not produce values"
  | .unwired leaf consumer =>
    "value " ++ leaf ++ " is not wired into stack '" ++ consumer ++ "'"

namespace Deferred

/-- A text that is known. -/
def text (value : String) : Deferred := .literal (.string value)

/-- The identity of a resource or of a parameter. -/
def reference (node : NodeId) : Deferred := .leaf (.construct node "Ref")

/-- An attribute of a resource. -/
def getAtt (node : NodeId) (attr : String) : Deferred := .leaf (.construct node attr)

/-- A value that publishing an asset of a top-level stack yields. -/
def slot (stack : NodeId) (hash : ContentHash) (slot : Asset.Slot) : Deferred :=
  .leaf (.asset stack hash slot)

mutual

/-- The leaves from left to right, repeated ones repeatedly. -/
def leaves : Deferred → List Leaf
  | .literal _ => []
  | .pseudo _ => []
  | .leaf produced => [produced]
  | .join _ parts => leavesOfItems parts
  | .select _ items => leaves items
  | .split _ source => leaves source
  | .list items => leavesOfItems items
  | .object members => leavesOfMembers members

/-- The leaves of items. -/
def leavesOfItems : List Deferred → List Leaf
  | [] => []
  | item :: rest => leaves item ++ leavesOfItems rest

/-- The leaves of members. -/
def leavesOfMembers : List (String × Deferred) → List Leaf
  | [] => []
  | (_, value) :: rest => leaves value ++ leavesOfMembers rest

end

mutual

/-- The template value with every leaf replaced by what `view` makes of it, from left to right;
the first leaf without one decides the error. -/
def resolve {ε : Type} (view : Leaf → Except ε Template.Value) :
    Deferred → Except ε Template.Value
  | .literal value => .ok (.literal value)
  | .pseudo parameter => .ok (.ref parameter.name)
  | .leaf produced => view produced
  | .join separator parts => do
    let parts ← resolveItems view parts
    return .join separator parts
  | .select index items => do
    let items ← resolve view items
    return .select index items
  | .split separator source => do
    let source ← resolve view source
    return .split separator source
  | .list items => do
    let items ← resolveItems view items
    return .list items
  | .object members => do
    let members ← resolveMembers view members
    return .object members

/-- `resolve` of every item. -/
def resolveItems {ε : Type} (view : Leaf → Except ε Template.Value) :
    List Deferred → Except ε (List Template.Value)
  | [] => .ok []
  | item :: rest => do
    let item ← resolve view item
    let rest ← resolveItems view rest
    return item :: rest

/-- `resolve` of every member's value. -/
def resolveMembers {ε : Type} (view : Leaf → Except ε Template.Value) :
    List (String × Deferred) → Except ε (List (String × Template.Value))
  | [] => .ok []
  | (name, value) :: rest => do
    let value ← resolve view value
    let rest ← resolveMembers view rest
    return (name, value) :: rest

end

end Deferred

end StackSynth
