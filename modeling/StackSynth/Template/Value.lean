/-
This file holds the values that stand in a template: literals, references within the template,
imports from other stacks, and the functions that the deployment engine evaluates.
-/

import StackSynth.Json.Printer
import StackSynth.Naming

namespace StackSynth

/-- A value as a template holds it. -/
inductive Template.Value where
  | literal (value : Json)
  /-- A parameter, a resource or a pseudo parameter. -/
  | ref (name : String)
  /-- An attribute of a resource. -/
  | getAtt (resource : String) (attr : String)
  /-- A value that another stack exports. -/
  | importValue (exported : String)
  | join (separator : String) (parts : List Template.Value)
  | select (index : Nat) (items : Template.Value)
  | split (separator : String) (source : Template.Value)
  | list (items : List Template.Value)
  | object (members : List (String × Template.Value))
deriving Repr, Inhabited, BEq

namespace Template.Value

/-- An output of a nested stack, seen through the resource that embeds it. -/
def nestedOutput (resource output : String) : Value :=
  .getAtt resource (Naming.embeddedOutput output)

/-- A function as it is written: an object with one member. -/
def function (name : String) (argument : Json) : Json := .object [(name, argument)]

mutual

/-- The value as it is written. -/
def toJson : Value → Json
  | .literal value => value
  | .ref name => function "Ref" (.string name)
  | .getAtt resource attr => function "Fn::GetAtt" (Json.strings [resource, attr])
  | .importValue exported => function "Fn::ImportValue" (.string exported)
  | .join separator parts =>
    function "Fn::Join" (.array [.string separator, .array (toJsonItems parts)])
  | .select index items => function "Fn::Select" (.array [Json.natural index, toJson items])
  | .split separator source =>
    function "Fn::Split" (.array [.string separator, toJson source])
  | .list items => .array (toJsonItems items)
  | .object members => .object (toJsonMembers members)

/-- `toJson` of every item. -/
def toJsonItems : List Value → List Json
  | [] => []
  | item :: rest => toJson item :: toJsonItems rest

/-- `toJson` of every member's value. -/
def toJsonMembers : List (String × Value) → List (String × Json)
  | [] => []
  | (name, value) :: rest => (name, toJson value) :: toJsonMembers rest

end

/-- The value as its template writes it. -/
def written (value : Value) : String := value.toJson.compact

/-- The value as it is shown to people: references by name, all else as written. -/
def shown : Value → String
  | .ref name => name
  | .getAtt resource attr => resource ++ "." ++ attr
  | .importValue exported => "import:" ++ exported
  | other => other.written

end Template.Value

end StackSynth
