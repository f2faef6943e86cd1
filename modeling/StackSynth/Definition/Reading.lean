/-
This file reads definitions. A construct is an object with its kind among its members, or an array
that starts with the kind and goes on with the fields in their order. Its fields are read as plain
values first and taken apart when all of them are there, so every mismatch within a construct comes
behind the faults of its text. Unknown fields count for nothing; a field that is given twice, or
missing without having a default, is a mismatch.
-/

import StackSynth.Definition.Basic
import StackSynth.Json.Scanner

namespace StackSynth.Definition

open Json (Fault Outline)

/-! ### Taking values apart -/

/-- The text that a value is. -/
def textOf? : Json → Option String
  | .string text => some text
  | _ => none

/-- The list of texts that a value is. -/
def textsOf? : Json → Option (List String)
  | .array items => items.mapM textOf?
  | _ => none

/-- The map of texts that a value is; of equally named members the last one counts. -/
def textMapOf? : Json → Option (SortedMap String String)
  | .object members => do
    let entries ← members.mapM (fun member => (textOf? member.2).map (member.1, ·))
    return SortedMap.ofList entries
  | _ => none

/-- The canonical members that a value is. Equally named ones keep the place of the first and the
value of the last. -/
def membersOf? : Json → Option (List (String × Json))
  | .object members =>
    some (Fields.ofList (members.map (fun member => (member.1, member.2.canonical))))
  | _ => none

/-- The canonical form of any value. -/
def canonicalOf? (value : Json) : Option Json := some value.canonical

/-- The fields among members: those of known names, none of them given twice. -/
def fieldsAmong? (names : List String) (members : List (String × Json)) :
    Option (List (String × Json)) :=
  let known := members.filter (fun member => names.contains member.1)
  if (known.map (·.1)).Nodup then some known else none

/-- The fields that items are, in the order of the names. -/
def fieldsInOrder? (names : List String) (items : List Json) : Option (List (String × Json)) :=
  if items.length ≤ names.length then some (names.zip items) else none

/-- A field that must be there. -/
def required {α : Type} (shape : Json → Option α) (name : String) (fields : List (String × Json)) :
    Option α :=
  (Fields.get? name fields).bind shape

/-- A field that stands for a default when it is missing. -/
def defaulted {α : Type} (default : α) (shape : Json → Option α) (name : String)
    (fields : List (String × Json)) : Option α :=
  match Fields.get? name fields with
  | none => some default
  | some value => shape value

/-- A field that may be missing or null. -/
def optional {α : Type} (shape : Json → Option α) (name : String) (fields : List (String × Json)) :
    Option (Option α) :=
  match Fields.get? name fields with
  | none => some none
  | some .null => some none
  | some value => (shape value).map some

/-- The fields of an environment in their order. -/
def environmentFields : List String := ["account", "region"]

/-- The environment of given fields. -/
def environmentOfFields? (fields : List (String × Json)) : Option Environment := do
  return ⟨← optional textOf? "account" fields, ← optional textOf? "region" fields⟩

/-- The environment that a value is. -/
def environmentOf? : Json → Option Environment
  | .object members => (fieldsAmong? environmentFields members).bind environmentOfFields?
  | .array items => (fieldsInOrder? environmentFields items).bind environmentOfFields?
  | _ => none

/-- The type of a parameter that names none. -/
def defaultParameterType : String := "String"

/-- What fields say of a construct of a given kind. -/
def contentOf? (fields : List (String × Json)) : Kind → Option Content
  | .group => some .group
  | .stack => do
    let name ← optional textOf? "stackName" fields
    let environment ← defaulted .unspecified environmentOf? "env" fields
    return .stack ⟨name, environment⟩
  | .nestedStack => some .nestedStack
  | .resource => do
    let type ← required textOf? "type" fields
    let attributes ← optional textsOf? "attributes" fields
    let properties ← defaulted [] membersOf? "properties" fields
    return .resource type attributes properties
  | .parameter => do
    let type ← defaulted defaultParameterType textOf? "type" fields
    let default ← optional canonicalOf? "default" fields
    let description ← optional textOf? "description" fields
    return .parameter ⟨type, default, description⟩
  | .output => do
    let value ← required canonicalOf? "value" fields
    let description ← optional textOf? "description" fields
    let exported ← optional textOf? "exportName" fields
    return .output value description exported
  | .fileAsset => do
    let source ← required textOf? "source" fields
    let exclude ← defaulted [] textsOf? "exclude" fields
    return .fileAsset source exclude
  | .imageAsset => do
    let directory ← required textOf? "directory" fields
    let arguments ← defaulted ∅ textMapOf? "buildArgs" fields
    let target ← optional textOf? "target" fields
    let file ← optional textOf? "file" fields
    let repositoryName ← optional textOf? "repositoryName" fields
    return .imageAsset ⟨directory, arguments, target, file, repositoryName⟩

/-- The construct of given fields. -/
def itemOf? (kind : Kind) (fields : List (String × Json)) : Option Item := do
  return ⟨← required textOf? "path" fields, ← contentOf? fields kind⟩

/-! ### Constructs -/

/-- The member that holds the kind of a construct. -/
def kindMember : String := "kind"

/-- Reads a kind. -/
def readKind (outline : Outline) : Except Fault Kind := do
  Outline.required (Kind.ofName? (← outline.text))

/-- Reads the members of a construct, at `depth` containers: its kind, if it is among them, and the
other members. -/
def readMembers (depth : Nat) : Option Kind → List (Except Fault String × Outline) →
    Except Fault (Option Kind × List (String × Json))
  | kind, [] => .ok (kind, [])
  | kind, (name, value) :: rest => do
    let name ← name
    if name = kindMember then
      let kind ← Outline.once kind (readKind value)
      readMembers depth kind rest
    else
      let value ← value.read depth
      let (kind, members) ← readMembers depth kind rest
      return (kind, (name, value) :: members)

/-- Reads a construct below `depth` containers. -/
def readItem (depth : Nat) : Outline → Except Fault Item
  | .object members finish => do
    Outline.enter depth
    let (kind, members) ← readMembers (depth + 1) none members
    Outline.readEnd finish
    let kind ← Outline.required kind
    Outline.required ((fieldsAmong? kind.fields members).bind (itemOf? kind))
  | .array items finish => do
    Outline.enter depth
    match items with
    | [] =>
      Outline.readEnd finish
      throw .mismatched
    | kind :: rest =>
      let kind ← readKind kind
      let values ← Outline.readItems (depth + 1) rest
      Outline.readEnd finish
      Outline.required ((fieldsInOrder? kind.fields values).bind (itemOf? kind))
  | other => .error other.unexpected

/-! ### Definitions -/

/-- Reads one field of a definition. -/
def step (depth : Nat) (constructs : Option (List Item)) (name : String) (value : Outline) :
    Except Fault (Option (List Item)) :=
  match name with
  | "constructs" => Outline.once constructs (value.list depth (readItem (depth + 1)))
  | _ => do
    value.skip
    return constructs

/-- Reads a definition. One without constructs is empty. -/
def read (outline : Outline) : Except Fault Definition := do
  let fields ← outline.record 0 ["constructs"]
  return ⟨(← Outline.fold (step 1) none fields).getD []⟩

/-- The definition that a text holds. -/
def ofText (text : String) : Except Fault Definition := (Json.Document.ofText text).take read

end StackSynth.Definition
