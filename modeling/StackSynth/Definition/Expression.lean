/-
This file gives expressions their values. An expression is JSON in which an object with a certain
only member is a reference or a function over further expressions, and an object with an asset and
one of its attributes is a value of that asset. All other JSON stands for itself, and objects may
hold expressions at any depth.
-/

import StackSynth.Definition.Scope

namespace StackSynth.Definition

/-- The objects with one member that do not stand for themselves. -/
inductive Intrinsic where
  | reference
  | getAtt
  | join
  | select
  | split
  | pseudo
  | stackIdentity (attr : StackAttribute)
deriving DecidableEq, Repr

namespace Intrinsic

/-- The name of the member. -/
def name : Intrinsic → String
  | .reference => "Ref"
  | .getAtt => "Fn::GetAtt"
  | .join => "Fn::Join"
  | .select => "Fn::Select"
  | .split => "Fn::Split"
  | .pseudo => "Pseudo"
  | .stackIdentity .id => "StackId"
  | .stackIdentity .name => "StackName"

/-- All of them. -/
def all : List Intrinsic :=
  [.reference, .getAtt, .join, .select, .split, .pseudo, .stackIdentity .id,
    .stackIdentity .name]

/-- The one of a name. -/
def ofName? (name : String) : Option Intrinsic :=
  all.find? (fun intrinsic => intrinsic.name = name)

end Intrinsic

/-- The error of an expression at `site`. -/
def invalid {α : Type} (site : String) (error : ExpressionError) : Except DefinitionError α :=
  .error (.expression site error)

/-- The text that a function takes. -/
def textArgument (site function : String) : Json → Except DefinitionError String
  | .string text => .ok text
  | _ => invalid site (.notText function)

/-- The greatest index that can be selected. -/
def greatestIndex : Nat := Nat.pow 2 64 - 1

/-- The index that a value is. -/
def indexOf? : Json → Option Nat
  | .number (.whole value) =>
    if 0 ≤ value ∧ value.toNat ≤ greatestIndex then some value.toNat else none
  | _ => none

/-! ### Values of assets -/

/-- The attribute of a file that holds its bucket, and so on for the others. -/
def fileAttribute? (handle : Asset.Handle) : String → Option Deferred
  | "bucket" => some handle.bucketName
  | "key" => some handle.objectKey
  | "url" => some handle.webUrl
  | "s3Url" => some handle.bucketUrl
  | "hash" => some handle.artifactHash
  | _ => none

/-- The attributes of an image: its full address, or only its name and tag. -/
def imageAttribute? (handle : Asset.Handle) : String → Option Deferred
  | "image" => some handle.imageAddress
  | "imageName" => some handle.imageName
  | _ => none

/-- The attributes of an asset of a given packaging. -/
def assetAttribute? (packaging : Asset.Packaging) (handle : Asset.Handle) (name : String) :
    Option Deferred :=
  match packaging with
  | .file => fileAttribute? handle name
  | .containerImage => imageAttribute? handle name

/-- The member that names an asset. -/
def assetMember : String := "Asset"

/-- The member that names an attribute of an asset. -/
def attributeMember : String := "Attribute"

/-- The arguments of the value of an asset: an object with both members and no others. -/
def assetArguments? (members : List (String × Json)) : Option (Json × Json) :=
  match members with
  | [_, _] => do
    let asset ← Fields.get? assetMember members
    let attr ← Fields.get? attributeMember members
    return (asset, attr)
  | _ => none

namespace Scope

/-- The value of an attribute of an asset. -/
def assetValue (scope : Scope) (site : String) (asset attr : Json) :
    Except DefinitionError Deferred := do
  let node ← scope.find site (← textArgument site assetMember asset)
  let name ← textArgument site attributeMember attr
  match (← (scope.app.tree.find node).mapError .construct).construct with
  | .asset _ packaging =>
    let handle ← (scope.app.assetHandle node).mapError .construct
    match assetAttribute? packaging handle name with
    | some value => return value
    | none => invalid site (.noAssetAttribute packaging name)
  | other => invalid site (.notAnAsset (scope.app.tree.path node) other.kind)

/-! ### References -/

/-- The identity of what a text names: a pseudo parameter, or else a construct by its path. -/
def referenceValue (scope : Scope) (site : String) (argument : Json) :
    Except DefinitionError Deferred := do
  let name ← textArgument site Intrinsic.reference.name argument
  match PseudoParameter.ofName? name with
  | some pseudo => return .pseudo pseudo
  | none => (scope.app.reference (← scope.find site name)).mapError .construct

/-- The path and the name of an attribute, in a pair or with a dot before the name. -/
def attributeArgument (site : String) : Json → Except DefinitionError (String × String)
  | .array [.string path, .string name] => .ok (path, name)
  | .string text =>
    match splitAtLast? '.' text with
    | some parts => .ok parts
    | none => invalid site .getAttText
  | _ => invalid site .getAttArguments

/-- The value of an attribute. -/
def attributeValue (scope : Scope) (site : String) (argument : Json) :
    Except DefinitionError Deferred := do
  let (path, name) ← attributeArgument site argument
  (scope.app.getAtt (← scope.find site path) name).mapError .construct

/-- The pseudo parameter of a name. -/
def pseudoValue (site : String) (argument : Json) : Except DefinitionError Deferred := do
  let name ← textArgument site Intrinsic.pseudo.name argument
  match PseudoParameter.ofName? name with
  | some pseudo => return .pseudo pseudo
  | none => invalid site (.unknownPseudoParameter name)

/-- The identity of the stack at a path. -/
def identityValue (scope : Scope) (site : String) (attr : StackAttribute) (argument : Json) :
    Except DefinitionError Deferred := do
  let path ← textArgument site (Intrinsic.stackIdentity attr).name argument
  (scope.app.stackIdentity (← scope.find site path) attr).mapError .construct

/-! ### Expressions -/

mutual

/-- The value of an expression. -/
def value (scope : Scope) (site : String) : Json → Except DefinitionError Deferred
  | .array items => do return .list (← values scope site items)
  | .object [(name, argument)] =>
    match Intrinsic.ofName? name with
    | some .reference => scope.referenceValue site argument
    | some .getAtt => scope.attributeValue site argument
    | some .join => joinValue scope site argument
    | some .select => selectValue scope site argument
    | some .split => splitValue scope site argument
    | some .pseudo => pseudoValue site argument
    | some (.stackIdentity attr) => scope.identityValue site attr argument
    | none => do return .object [(name, ← value scope site argument)]
  | .object members =>
    match assetArguments? members with
    | some (asset, attr) => scope.assetValue site asset attr
    | none => do return .object (← memberValues scope site members)
  | scalar => .ok (.literal scalar)

/-- The texts of a list with something between them. -/
def joinValue (scope : Scope) (site : String) : Json → Except DefinitionError Deferred
  | .array [.string separator, .array parts] => do
    return .join separator (← values scope site parts)
  | .array [_, _] => invalid site .joinArguments
  | _ => invalid site (.notAPair Intrinsic.join.name)

/-- An item of a list. -/
def selectValue (scope : Scope) (site : String) : Json → Except DefinitionError Deferred
  | .array [index, items] =>
    match indexOf? index with
    | some index => do return .select index (← value scope site items)
    | none => invalid site .selectIndex
  | _ => invalid site (.notAPair Intrinsic.select.name)

/-- The texts between the separators of a text. -/
def splitValue (scope : Scope) (site : String) : Json → Except DefinitionError Deferred
  | .array [.string separator, source] => do
    return .split separator (← value scope site source)
  | .array [_, _] => invalid site .splitArguments
  | _ => invalid site (.notAPair Intrinsic.split.name)

/-- The values of items. -/
def values (scope : Scope) (site : String) : List Json → Except DefinitionError (List Deferred)
  | [] => .ok []
  | item :: rest => do
    let item ← value scope site item
    let rest ← values scope site rest
    return item :: rest

/-- The values of members. -/
def memberValues (scope : Scope) (site : String) :
    List (String × Json) → Except DefinitionError (List (String × Deferred))
  | [] => .ok []
  | (name, member) :: rest => do
    let member ← value scope site member
    let rest ← memberValues scope site rest
    return (name, member) :: rest

end

end Scope

end StackSynth.Definition
