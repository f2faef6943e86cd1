/-
This file proves what a template is written as. It has at most three sections, in a fixed order and
none of them empty, and each has an entry for each declaration of its kind: parameters and outputs
by their names, resources as they were declared. An entry tells what its declaration does, and
leaves out what is not given.
-/

import StackSynth.Proofs.Fields
import StackSynth.Template.Basic

namespace StackSynth

/-! ### Objects -/

namespace Json

/-- The members of an object. -/
def members : Json → List (String × Json)
  | .object members => members
  | _ => []

/-- What stands under a name in an object. -/
def member? (written : Json) (name : String) : Option Json := Fields.get? name written.members

/-- The names in an object, in their order. -/
def names (written : Json) : List String := Fields.names written.members

/-- The names in a section of an object, in their order. -/
def sectionNames (written : Json) (title : String) : List String :=
  ((written.member? title).map names).getD []

/-- What stands under a name in a section of an object. -/
def entry? (written : Json) (title name : String) : Option Json :=
  (written.member? title).bind (·.member? name)

end Json

namespace Fields

variable {name title : String} {α : Type} {write : α → Json} {value : Option α}
  {members : List (String × Json)}

@[simp]
theorem get?_optionalMember : get? name (Json.optionalMember title write value) =
    if title = name then value.map write else none := by
  cases value with
  | none => exact (ite_self _).symm
  | some value => rfl

theorem names_optionalMember_sublist :
    (names (Json.optionalMember title write value)).Sublist [title] := by
  cases value with
  | none => exact List.nil_sublist _
  | some value => exact List.Sublist.refl _

@[simp]
theorem get?_optionalSection : get? name (Json.optionalSection title members) =
    if title = name ∧ members ≠ [] then some (.object members) else none := by
  cases members with
  | nil => exact (if_neg fun never => never.2 rfl).symm
  | cons first rest => simp [Json.optionalSection, get?]

theorem names_optionalSection_sublist :
    (names (Json.optionalSection title members)).Sublist [title] := by
  cases members with
  | nil => exact List.nil_sublist _
  | cons first rest => exact List.Sublist.refl _

end Fields

theorem Template.Value.toJsonMembers_eq (members : List (String × Template.Value)) :
    toJsonMembers members = members.map fun member => (member.1, member.2.toJson) := by
  induction members with
  | nil => rfl
  | cons member rest inductionHypothesis => rw [toJsonMembers, inductionHypothesis, List.map_cons]

/-! ### Entries -/

/-- A parameter as it is written. -/
structure ParameterDecl.Written (declaration : ParameterDecl) (entry : Json) : Prop where
  names : entry.names.Sublist ["Type", "Default", "Description"]
  type : entry.member? "Type" = some (.string declaration.type)
  default : entry.member? "Default" = declaration.default
  description : entry.member? "Description" = declaration.description.map .string

/-- An output as it is written. -/
structure OutputDecl.Written (declaration : OutputDecl) (entry : Json) : Prop where
  names : entry.names.Sublist ["Description", "Value", "Export"]
  description : entry.member? "Description" = declaration.description.map .string
  value : entry.member? "Value" = some declaration.value.toJson
  exported : entry.member? "Export" =
    declaration.exported.map fun name => .object [("Name", .string name)]

/-- A resource as it is written: its properties are in their order. -/
structure ResourceDecl.Written (declaration : ResourceDecl) (entry : Json) : Prop where
  names : entry.names.Sublist ["Type", "Properties"]
  type : entry.member? "Type" = some (.string declaration.type)
  propertyNames : entry.sectionNames "Properties" = Fields.names declaration.properties
  properties : ∀ name, entry.entry? "Properties" name =
    (Fields.get? name declaration.properties).map Template.Value.toJson

theorem ParameterDecl.written (declaration : ParameterDecl) :
    declaration.Written declaration.toJson where
  names := .cons_cons "Type" (Fields.names_append_sublist Fields.names_optionalMember_sublist
    Fields.names_optionalMember_sublist)
  type := rfl
  default := by simp [Json.member?, toJson, Json.members, Fields.get?]
  description := by simp [Json.member?, toJson, Json.members, Fields.get?]

theorem OutputDecl.written (declaration : OutputDecl) :
    declaration.Written declaration.toJson where
  names := by
    have value : (Fields.names [("Value", declaration.value.toJson)]).Sublist ["Value"] := .refl _
    exact Fields.names_append_sublist
      (Fields.names_append_sublist Fields.names_optionalMember_sublist value)
      Fields.names_optionalMember_sublist
  description := by simp [Json.member?, toJson, Json.members, Fields.get?]
  value := by simp [Json.member?, toJson, Json.members, Fields.get?]
  exported := by simp [Json.member?, toJson, Json.members, Fields.get?]

/-! ### Sections -/

namespace Json

variable {written : Json} {title : String} {entries : List (String × Json)}

/-- An object with a section of some entries, which is left out if there are none. -/
def HasSection (written : Json) (title : String) (entries : List (String × Json)) : Prop :=
  written.member? title = if entries = [] then none else some (.object entries)

theorem HasSection.sectionNames (has : written.HasSection title entries) :
    written.sectionNames title = Fields.names entries := by
  rw [Json.sectionNames, has]
  split
  · rename_i isEmpty
    rw [isEmpty]
    rfl
  · rfl

theorem HasSection.entry? (has : written.HasSection title entries) (name : String) :
    written.entry? title name = Fields.get? name entries := by
  rw [Json.entry?, has]
  split
  · rename_i isEmpty
    rw [isEmpty]
    rfl
  · rfl

/-- No section stands there empty. -/
theorem HasSection.ne_empty (has : written.HasSection title entries) :
    written.member? title ≠ some (.object []) := by
  rw [has]
  split
  · exact nofun
  · rename_i inhabited
    exact fun same => inhabited (Json.object.inj (Option.some.inj same))

end Json

theorem ResourceDecl.written (declaration : ResourceDecl) :
    declaration.Written declaration.toJson := by
  have properties : declaration.toJson.HasSection "Properties"
      (Template.Value.toJsonMembers declaration.properties) := by
    simp [Json.HasSection, Json.member?, toJson, Json.members, Fields.get?]
  constructor
  case names => exact .cons_cons "Type" Fields.names_optionalSection_sublist
  case type => rfl
  case propertyNames =>
    rw [properties.sectionNames, Template.Value.toJsonMembers_eq, Fields.names_map]
  case properties =>
    intro name
    rw [properties.entry?, Template.Value.toJsonMembers_eq, Fields.get?_map]

namespace Template

/-- A template as it is written. -/
structure Written (template : Template) (written : Json) : Prop where
  sections : written.names.Sublist ["Parameters", "Resources", "Outputs"]
  inhabited : ∀ title, written.member? title ≠ some (.object [])
  parameterNames : written.sectionNames "Parameters" = template.parameters.keys
  parameters : ∀ {name declaration}, template.parameters.get? name = some declaration →
    ∃ entry, written.entry? "Parameters" name = some entry ∧ declaration.Written entry
  resourceNames : written.sectionNames "Resources" = Fields.names template.resources
  resources : ∀ {name declaration}, Fields.get? name template.resources = some declaration →
    ∃ entry, written.entry? "Resources" name = some entry ∧ declaration.Written entry
  outputNames : written.sectionNames "Outputs" = template.outputs.keys
  outputs : ∀ {name declaration}, template.outputs.get? name = some declaration →
    ∃ entry, written.entry? "Outputs" name = some entry ∧ declaration.Written entry

/-- What a template is written as has all its declarations, and nothing else. -/
theorem written (template : Template) : template.Written template.toJson := by
  have parameters : template.toJson.HasSection "Parameters"
      (template.parameters.mapValues ParameterDecl.toJson).entries := by
    simp [Json.HasSection, Json.member?, toJson, Json.members]
  have resources : template.toJson.HasSection "Resources"
      (template.resources.map fun resource => (resource.1, resource.2.toJson)) := by
    simp [Json.HasSection, Json.member?, toJson, Json.members]
  have outputs : template.toJson.HasSection "Outputs"
      (template.outputs.mapValues OutputDecl.toJson).entries := by
    simp [Json.HasSection, Json.member?, toJson, Json.members]
  have sections : template.toJson.names.Sublist ["Parameters", "Resources", "Outputs"] :=
    Fields.names_append_sublist
      (Fields.names_append_sublist Fields.names_optionalSection_sublist
        Fields.names_optionalSection_sublist) Fields.names_optionalSection_sublist
  constructor
  case sections => exact sections
  case inhabited =>
    intro title isEmpty
    have listed := sections.subset (Fields.has_iff.mp (Option.isSome_of_eq_some isEmpty))
    simp only [List.mem_cons, List.not_mem_nil, or_false] at listed
    rcases listed with rfl | rfl | rfl
    · exact parameters.ne_empty isEmpty
    · exact resources.ne_empty isEmpty
    · exact outputs.ne_empty isEmpty
  case parameterNames =>
    rw [parameters.sectionNames]
    exact SortedMap.keys_mapValues _ _
  case parameters =>
    intro name declaration known
    refine ⟨_, ?_, declaration.written⟩
    rw [parameters.entry?, Fields.get?_entries, SortedMap.get?_mapValues, known, Option.map_some]
  case resourceNames => rw [resources.sectionNames, Fields.names_map]
  case resources =>
    intro name declaration known
    refine ⟨_, ?_, declaration.written⟩
    rw [resources.entry?, Fields.get?_map, known, Option.map_some]
  case outputNames =>
    rw [outputs.sectionNames]
    exact SortedMap.keys_mapValues _ _
  case outputs =>
    intro name declaration known
    refine ⟨_, ?_, declaration.written⟩
    rw [outputs.entry?, Fields.get?_entries, SortedMap.get?_mapValues, known, Option.map_some]

end Template

end StackSynth
