/-
This file holds constructs: what an application is built from. Stacks are the units of deployment,
a nested stack being deployed as part of the stack around it; groups only give their members a
path.
-/

import StackSynth.Deferred.Basic
import StackSynth.Environment
import StackSynth.Template.Basic

namespace StackSynth

/-- The options of a top-level stack. -/
structure StackOptions where
  /-- The name the stack is deployed under, if it is not to come from its path. -/
  name : Option String
  environment : Environment
deriving DecidableEq, Repr

/-- A resource with properties that may be deferred. -/
structure Resource where
  type : String
  properties : List (String × Deferred)
  /-- The attributes that can be read besides `Ref`, if only these can. -/
  attributes : Option (List String)
deriving Repr

namespace Resource

/-- The resource with another value for a property. -/
def setProperty (resource : Resource) (name : String) (value : Deferred) : Resource :=
  { resource with properties := Fields.set name value resource.properties }

/-- Whether an attribute can be read. -/
def hasAttribute (resource : Resource) (name : String) : Bool :=
  name = "Ref" ||
    match resource.attributes with
    | none => true
    | some names => names.contains name

end Resource

/-- An output that the application declares. -/
structure OutputSpec where
  value : Deferred
  description : Option String
  exported : Option String
deriving Repr

/-- A construct, without its place in the tree. -/
inductive Construct where
  | root
  | group
  | topLevelStack (options : StackOptions)
  | nestedStack
  | resource (resource : Resource)
  | parameter (declaration : ParameterDecl)
  | output (spec : OutputSpec)
  | asset (hash : ContentHash) (packaging : Asset.Packaging)

namespace Construct

/-- The construct as messages call it. -/
def kind : Construct → String
  | .root => "root"
  | .group => "group"
  | .topLevelStack _ => "stack"
  | .nestedStack => "nested stack"
  | .resource _ => "resource"
  | .parameter _ => "parameter"
  | .output _ => "output"
  | .asset _ _ => "asset"

/-- Whether the construct is a stack. -/
def isStack : Construct → Bool
  | .topLevelStack _ => true
  | .nestedStack => true
  | _ => false

/-- Whether the construct is a nested stack. -/
def isNestedStack : Construct → Bool
  | .nestedStack => true
  | _ => false

end Construct

/-- Why a construct cannot be added, or does not answer a question. -/
inductive ConstructError where
  | emptyId
  | slashInId (id : String)
  | duplicateId (scope : String) (id : String)
  | nestedStackAtRoot (id : String)
  | nestedStackWithoutParent (path : String)
  | stackInsideStack (path : String) (parent : String)
  | noEnclosingStack (kind : String) (path : String)
  | wrongKind (path : String) (kind : String) (expected : String)
  | unknownAttribute (path : String) (name : String)
  | invalidStackName (name : String)
  | unknownConstruct (node : NodeId)
  | asset (error : Asset.Error)
deriving DecidableEq, Repr

/-- The wording of an error. -/
def ConstructError.message : ConstructError → String
  | .emptyId => "invalid construct id '': ids cannot be empty"
  | .slashInId id => "invalid construct id '" ++ id ++ "': ids cannot contain '/'"
  | .duplicateId scope id =>
    "there is already a construct with id '" ++ id ++ "' in '" ++ scope ++ "'"
  | .nestedStackAtRoot id =>
    "nested stack '" ++ id ++ "' cannot be defined at the application root"
  | .nestedStackWithoutParent path =>
    "nested stack '" ++ path ++ "' must be defined within the scope of another stack"
  | .stackInsideStack path parent =>
    "stack '" ++ path ++ "' cannot be defined inside stack '" ++ parent
      ++ "'; use a nested stack"
  | .noEnclosingStack kind path =>
    kind ++ " '" ++ path ++ "' must be defined within the scope of a stack"
  | .wrongKind path kind expected =>
    "'" ++ path ++ "' is a " ++ kind ++ ", not a " ++ expected
  | .unknownAttribute path name =>
    "resource '" ++ path ++ "' has no attribute '" ++ name ++ "'"
  | .invalidStackName name =>
    "invalid stack name '" ++ name
      ++ "': must start with a letter and contain only letters, digits, and hyphens"
  | .unknownConstruct node => "unknown construct " ++ nodeName node
  | .asset error => error.message

end StackSynth
