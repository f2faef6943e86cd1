/-
This file holds applications: a tree of constructs and the assets its stacks declare. Every
operation that adds a construct checks where it may stand: stacks stand outside of stacks, and
what a template holds stands inside one. An operation that fails leaves nothing behind.
-/

import StackSynth.Asset.Handle
import StackSynth.Asset.Registry
import StackSynth.Construct.Tree

namespace StackSynth

/-- An application under construction. -/
structure Application where
  tree : Tree
  assets : Asset.Registry

namespace Application

/-- The application without constructs. -/
def empty : Application := ⟨Tree.empty, Asset.Registry.empty⟩

/-- The path of a construct of a given id in a scope. -/
def pathIn (scope id : String) : String := if scope = "" then id else scope ++ "/" ++ id

/-- The stack that a construct added in `scope` will belong to. -/
def requireStack (app : Application) (scope : NodeId) (id kind : String) :
    Except ConstructError NodeId := do
  let _ ← app.tree.find scope
  match app.tree.stackOf? scope with
  | some stack => return stack
  | none => throw (.noEnclosingStack kind (pathIn (app.tree.path scope) id))

/-- Adds a construct at a place that has been checked. -/
def addConstruct (app : Application) (scope : NodeId) (id : String) (construct : Construct) :
    Except ConstructError (NodeId × Application) := do
  let (node, tree) ← app.tree.add scope id construct
  return (node, { app with tree := tree })

/-! ### Building -/

/-- Adds a group anywhere. -/
def addGroup (app : Application) (scope : NodeId) (id : String) :
    Except ConstructError (NodeId × Application) := do
  let _ ← app.tree.find scope
  app.addConstruct scope id .group

/-- The name that a top-level stack will be deployed under. -/
def stackNameIn (app : Application) (scope : NodeId) (id : String) (options : StackOptions) :
    String :=
  match options.name with
  | some name => name
  | none =>
    if scope = Tree.rootId then id else Naming.uniqueId (app.tree.pathComponents scope ++ [id])

/-- Adds a top-level stack outside of all stacks. -/
def addStack (app : Application) (scope : NodeId) (id : String) (options : StackOptions) :
    Except ConstructError (NodeId × Application) := do
  let _ ← app.tree.find scope
  match app.tree.stackOf? scope with
  | some around =>
    throw (.stackInsideStack (pathIn (app.tree.path scope) id) (app.tree.path around))
  | none =>
    let name := app.stackNameIn scope id options
    if !Naming.isStackName name then throw (.invalidStackName name)
    app.addConstruct scope id (.topLevelStack options)

/-- Adds a nested stack inside of a stack. -/
def addNestedStack (app : Application) (scope : NodeId) (id : String) :
    Except ConstructError (NodeId × Application) := do
  let _ ← app.tree.find scope
  if scope = Tree.rootId then throw (.nestedStackAtRoot id)
  if (app.tree.stackOf? scope).isNone then
    throw (.nestedStackWithoutParent (pathIn (app.tree.path scope) id))
  app.addConstruct scope id .nestedStack

/-- Adds a resource inside of a stack. -/
def addResource (app : Application) (scope : NodeId) (id : String) (resource : Resource) :
    Except ConstructError (NodeId × Application) := do
  let _ ← app.requireStack scope id "resource"
  app.addConstruct scope id (.resource resource)

/-- Adds a parameter inside of a stack. -/
def addParameter (app : Application) (scope : NodeId) (id : String) (declaration : ParameterDecl) :
    Except ConstructError (NodeId × Application) := do
  let _ ← app.requireStack scope id "parameter"
  app.addConstruct scope id (.parameter declaration)

/-- Adds an output inside of a stack. -/
def addOutput (app : Application) (scope : NodeId) (id : String) (spec : OutputSpec) :
    Except ConstructError (NodeId × Application) := do
  let _ ← app.requireStack scope id "output"
  app.addConstruct scope id (.output spec)

/-- Adds an asset inside of a stack and registers its content on the top-level stack. -/
def addAsset (app : Application) (bundler : Asset.Bundler) (scope : NodeId) (id : String)
    (source : Asset.Source) : Except ConstructError (Asset.Handle × Application) := do
  let stack ← app.requireStack scope id "asset"
  match app.tree.topLevelOf? stack with
  | none => throw (.unknownConstruct stack)
  | some top =>
    let hash ← (bundler source).mapError .asset
    let (node, app) ← app.addConstruct scope id (.asset hash source.packaging)
    let (assets, _) := app.assets.register top ⟨hash, source.packaging, source.localPath⟩
    return (⟨node, top, hash⟩, { app with assets := assets })

/-- Sets a property of a resource. -/
def setProperty (app : Application) (node : NodeId) (name : String) (value : Deferred) :
    Except ConstructError Application := do
  match (← app.tree.find node).construct with
  | .resource resource =>
    return { app with
      tree := app.tree.replace node (.resource (resource.setProperty name value)) }
  | other => throw (.wrongKind (app.tree.path node) other.kind "resource")

/-! ### Deferred values -/

/-- The identity of a resource or of a parameter. -/
def reference (app : Application) (node : NodeId) : Except ConstructError Deferred := do
  match (← app.tree.find node).construct with
  | .resource _ => return .reference node
  | .parameter _ => return .reference node
  | other => throw (.wrongKind (app.tree.path node) other.kind "resource or parameter")

/-- An attribute of a resource that exposes it. -/
def getAtt (app : Application) (node : NodeId) (name : String) :
    Except ConstructError Deferred := do
  match (← app.tree.find node).construct with
  | .resource resource =>
    if resource.hasAttribute name then return .getAtt node name
    else throw (.unknownAttribute (app.tree.path node) name)
  | other => throw (.wrongKind (app.tree.path node) other.kind "resource")

/-- The identity of a stack. -/
def stackIdentity (app : Application) (stack : NodeId) (attr : StackAttribute) :
    Except ConstructError Deferred := do
  let node ← app.tree.find stack
  if node.construct.isStack then return .leaf (.stack stack attr)
  else throw (.wrongKind (app.tree.path stack) node.construct.kind "stack")

/-- The handle of an asset, whatever its packaging. -/
def assetHandle (app : Application) (node : NodeId) : Except ConstructError Asset.Handle := do
  match (← app.tree.find node).construct with
  | .asset hash _ =>
    match app.tree.topLevelOf? node with
    | some stack => return ⟨node, stack, hash⟩
    | none => throw (.unknownConstruct node)
  | other => throw (.wrongKind (app.tree.path node) other.kind "asset")

end Application

end StackSynth
