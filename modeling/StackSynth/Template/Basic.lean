/-
This file holds templates: the documents that are deployed. Parameters and outputs stand in the
order of their names and resources in the order of the tree, and sections without entries are not
written.
-/

import StackSynth.Fields
import StackSynth.SortedMap
import StackSynth.Template.Value

namespace StackSynth

/-- Members that are written only where there is a value. -/
def Json.optionalMember {α : Type} (name : String) (write : α → Json) :
    Option α → List (String × Json)
  | some value => [(name, write value)]
  | none => []

/-- A section that is written only where it has members. -/
def Json.optionalSection (name : String) : List (String × Json) → List (String × Json)
  | [] => []
  | members => [(name, .object members)]

/-- A parameter declaration. -/
structure ParameterDecl where
  type : String
  default : Option Json
  description : Option String
deriving Repr, BEq, Inhabited

namespace ParameterDecl

/-- A parameter that carries a string and nothing else. -/
def string : ParameterDecl := ⟨"String", none, none⟩

/-- The declaration as it is written. -/
def toJson (declaration : ParameterDecl) : Json :=
  .object (("Type", .string declaration.type)
    :: (Json.optionalMember "Default" id declaration.default
      ++ Json.optionalMember "Description" .string declaration.description))

end ParameterDecl

/-- An output declaration. -/
structure OutputDecl where
  description : Option String
  value : Template.Value
  exported : Option String
deriving Repr, BEq, Inhabited

/-- The declaration as it is written. -/
def OutputDecl.toJson (declaration : OutputDecl) : Json :=
  .object (Json.optionalMember "Description" .string declaration.description
    ++ [("Value", declaration.value.toJson)]
    ++ Json.optionalMember "Export" (fun name => .object [("Name", .string name)])
      declaration.exported)

/-- A resource declaration. -/
structure ResourceDecl where
  type : String
  properties : List (String × Template.Value)
deriving Repr, BEq, Inhabited

/-- The declaration as it is written. -/
def ResourceDecl.toJson (declaration : ResourceDecl) : Json :=
  .object (("Type", .string declaration.type)
    :: Json.optionalSection "Properties" (Template.Value.toJsonMembers declaration.properties))

/-- A template. -/
structure Template where
  parameters : SortedMap String ParameterDecl
  /-- The resources in the order in which they were declared, each name once. -/
  resources : List (String × ResourceDecl)
  outputs : SortedMap String OutputDecl

namespace Template

/-- The template that declares nothing. -/
def empty : Template := ⟨∅, [], ∅⟩

/-- The template as it is written. -/
def toJson (template : Template) : Json :=
  .object (
    Json.optionalSection "Parameters" (template.parameters.mapValues ParameterDecl.toJson).entries
    ++ Json.optionalSection "Resources"
      (template.resources.map (fun resource => (resource.1, resource.2.toJson)))
    ++ Json.optionalSection "Outputs" (template.outputs.mapValues OutputDecl.toJson).entries)

/-- The names under which the template exports values, in the order of its outputs. -/
def exportNames (template : Template) : List String :=
  template.outputs.values.filterMap OutputDecl.exported

end Template

end StackSynth
