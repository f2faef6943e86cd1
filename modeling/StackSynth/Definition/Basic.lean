/-
This file holds definitions: applications as they are written down. A definition lists constructs,
each with its path from the root and behind the constructs around it. The values of properties and
outputs are JSON in which certain objects stand for references to other constructs.
-/

import StackSynth.Construct.Basic

namespace StackSynth

/-- What a definition says of a construct besides its path. -/
inductive Definition.Content where
  | group
  | stack (options : StackOptions)
  | nestedStack
  | resource (type : String) (attributes : Option (List String))
    (properties : List (String × Json))
  | parameter (declaration : ParameterDecl)
  | output (value : Json) (description : Option String) (exported : Option String)
  /-- A file, or a directory without the entries of excluded names. -/
  | fileAsset (source : String) (exclude : List String)
  | imageAsset (image : Asset.Image)

/-- A construct of a definition. -/
structure Definition.Item where
  /-- The ids from the outermost construct to this one, between slashes. -/
  path : String
  content : Definition.Content

/-- An application as it is written down. -/
structure Definition where
  constructs : List Definition.Item

namespace Definition

/-- The kinds of constructs that can be written down. -/
inductive Kind where
  | group
  | stack
  | nestedStack
  | resource
  | parameter
  | output
  | fileAsset
  | imageAsset
deriving DecidableEq, Repr

namespace Kind

/-- All kinds. -/
def all : List Kind :=
  [.group, .stack, .nestedStack, .resource, .parameter, .output, .fileAsset, .imageAsset]

/-- The kind as it is written. -/
def name : Kind → String
  | .group => "group"
  | .stack => "stack"
  | .nestedStack => "nested-stack"
  | .resource => "resource"
  | .parameter => "parameter"
  | .output => "output"
  | .fileAsset => "file-asset"
  | .imageAsset => "image-asset"

/-- The kind of a name. -/
def ofName? (name : String) : Option Kind := all.find? (fun kind => kind.name = name)

/-- The fields of a construct in their order. -/
def fields : Kind → List String
  | .group => ["path"]
  | .stack => ["path", "stackName", "env"]
  | .nestedStack => ["path"]
  | .resource => ["path", "type", "attributes", "properties"]
  | .parameter => ["path", "type", "default", "description"]
  | .output => ["path", "value", "description", "exportName"]
  | .fileAsset => ["path", "source", "exclude"]
  | .imageAsset => ["path", "directory", "buildArgs", "target", "file", "repositoryName"]

end Kind

/-! ### Written form -/

/-- The kind of a construct. -/
def Content.kind : Content → Kind
  | .group => .group
  | .stack _ => .stack
  | .nestedStack => .nestedStack
  | .resource _ _ _ => .resource
  | .parameter _ => .parameter
  | .output _ _ _ => .output
  | .fileAsset _ _ => .fileAsset
  | .imageAsset _ => .imageAsset

/-- The fields of a construct as they are written. -/
def Content.members : Content → List (String × Json)
  | .group => []
  | .stack options =>
    Json.optionalMember "stackName" .string options.name ++ [("env", options.environment.toJson)]
  | .nestedStack => []
  | .resource type attributes properties =>
    ("type", .string type) :: (Json.optionalMember "attributes" Json.strings attributes
      ++ [("properties", .object properties)])
  | .parameter declaration =>
    ("type", .string declaration.type) :: (Json.optionalMember "default" id declaration.default
      ++ Json.optionalMember "description" .string declaration.description)
  | .output value description exported =>
    ("value", value) :: (Json.optionalMember "description" .string description
      ++ Json.optionalMember "exportName" .string exported)
  | .fileAsset source exclude => [("source", .string source), ("exclude", Json.strings exclude)]
  | .imageAsset image =>
    [("directory", .string image.directory),
      ("buildArgs", .object (image.buildArguments.mapValues .string).entries)]
    ++ Json.optionalMember "target" .string image.target
    ++ Json.optionalMember "file" .string image.file
    ++ Json.optionalMember "repositoryName" .string image.repositoryName

/-- The construct as it is written. -/
def Item.toJson (item : Item) : Json :=
  .object (("kind", .string item.content.kind.name) :: ("path", .string item.path)
    :: item.content.members)

/-- The definition as it is written. -/
def toJson (definition : Definition) : Json :=
  .object [("constructs", .array (definition.constructs.map Item.toJson))]

end Definition

end StackSynth
