/-
This file generates names. Every name is made from the path of a construct, so the same tree
always gets the same names: a readable part from the letters and digits of the path, and a suffix
from the digest of the whole path, which keeps apart what the readable parts confuse. Names are
letters and digits only and have at most 255 of them.
-/

import StackSynth.Digest.Text

namespace StackSynth.Naming

/-- The greatest length of a name. -/
def nameLimit : Nat := 255

/-- The greatest length of the readable part of an id. -/
def readableLimit : Nat := 240

/-- Components of this name count for nothing. -/
def hiddenComponent : String := "Default"

/-- Components of this name count for the suffix but not for the readable part. -/
def quietComponent : String := "Resource"

/-- The letters and digits of a text. -/
def alphanumeric (text : String) : String :=
  String.ofList (text.toList.filter Char.isAlphanum)

/-- The first characters of a text. -/
def prefixOf (length : Nat) (text : String) : String := String.ofList (text.toList.take length)

/-- Whether one text ends in another. -/
def endsIn (text ending : String) : Bool := ending.toList.isSuffixOf text.toList

/-- The components without those in which the last one kept before them ends already. -/
def withoutEchoes : Option String → List String → List String
  | _, [] => []
  | none, component :: rest => component :: withoutEchoes (some component) rest
  | some previous, component :: rest =>
    if endsIn previous component then withoutEchoes (some previous) rest
    else component :: withoutEchoes (some component) rest

/-- The readable part of an id, cut to its limit. -/
def readablePart (components : List String) : String :=
  prefixOf readableLimit
    (String.join (((withoutEchoes none components).filter (· ≠ quietComponent)).map alphanumeric))

/-- The id of visible components. One component alone stands for itself if it is short enough;
otherwise the readable part is followed by the suffix of the components between slashes. -/
def idOfVisible : List String → String
  | [] => ""
  | [component] =>
    let name := alphanumeric component
    if name.length ≤ readableLimit then name
    else readablePart [component] ++ idSuffix component
  | components => readablePart components ++ idSuffix ("/".intercalate components)

/-- The id of a path. -/
def uniqueId (path : List String) : String := idOfVisible (path.filter (· ≠ hiddenComponent))

/-- A name cut to its limit. What is cut off is stood for by the suffix of the whole name. -/
def bounded (name : String) : String :=
  if name.length ≤ nameLimit then name
  else prefixOf (nameLimit - suffixLength) name ++ idSuffix name

/-- The output by which a stack shows an attribute of the producer at `path` to its parent. -/
def outputName (path : List String) (attr : String) : String :=
  bounded (uniqueId path ++ alphanumeric attr)

/-- The parameter by which a nested stack receives an attribute of the producer at `path`. -/
def parameterName (path : List String) (attr : String) : String :=
  bounded ("referenceto" ++ uniqueId path ++ alphanumeric attr)

/-- The output that exports a value, made from the value as it is written. -/
def exportOutputName (value : String) : String :=
  bounded (uniqueId ["Exports", "Output" ++ value])

/-- The name under which a stack exports one of its outputs. -/
def exportName (stack output : String) : String := stack ++ ":" ++ output

/-- The attribute by which the resource that embeds a nested stack gives access to an output. -/
def embeddedOutput (output : String) : String := "Outputs." ++ output

/-- The component below which the parameters of assets are named. -/
def assetParametersComponent : String := "AssetParameters"

/-- The parameter of a stack for one slot of an asset. -/
def assetParameterName (hash : ContentHash) (slot : String) : String :=
  uniqueId [assetParametersComponent, hash, slot]

/-- Whether a stack can be deployed under a name: it starts with a letter and goes on with
letters, digits and hyphens. -/
def isStackName (name : String) : Bool :=
  match name.toList with
  | [] => false
  | first :: rest => first.isAlpha && rest.all (fun letter => letter.isAlphanum || letter = '-')

end StackSynth.Naming
