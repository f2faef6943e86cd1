/-
This file holds the reasons why a definition yields no application.
-/

import StackSynth.Construct.Basic
import StackSynth.Json.Outline

namespace StackSynth

/-- Why an expression has no value. -/
inductive ExpressionError where
  /-- The argument of a function is no text. -/
  | notText (function : String)
  | getAttArguments
  | getAttText
  /-- The argument of a function is not a pair. -/
  | notAPair (function : String)
  | joinArguments
  | selectIndex
  | splitArguments
  | unknownPseudoParameter (name : String)
  | notAnAsset (path : String) (kind : String)
  | noAssetAttribute (packaging : Asset.Packaging) (name : String)
deriving DecidableEq, Repr

/-- The wording of an error. -/
def ExpressionError.message : ExpressionError → String
  | .notText function => function ++ " takes a string"
  | .getAttArguments => "Fn::GetAtt takes [path, attribute]"
  | .getAttText => "Fn::GetAtt string form is \"path.Attribute\""
  | .notAPair function => function ++ " takes a two-element array"
  | .joinArguments => "Fn::Join takes [separator, [values]]"
  | .selectIndex => "Fn::Select index must be a non-negative integer"
  | .splitArguments => "Fn::Split takes [separator, value]"
  | .unknownPseudoParameter name => "unknown pseudo parameter '" ++ name ++ "'"
  | .notAnAsset path kind => "'" ++ path ++ "' is a " ++ kind ++ ", not an asset"
  | .noAssetAttribute packaging name =>
    packaging.title ++ " assets have no attribute '" ++ name ++ "'"

/-- Why a definition yields no application. -/
inductive DefinitionError where
  /-- The definition cannot be read, for a reason that the operating system words. -/
  | unreadable (path : String) (reason : String)
  /-- The text of the definition has a fault; `origin` is where the text comes from. -/
  | faulty (origin : String) (fault : Json.Fault)
  | emptyId (path : String)
  | undeclaredParent (path : String) (parent : String)
  | unknownPath (path : String) (site : String)
  | expression (site : String) (error : ExpressionError)
  | construct (error : ConstructError)
deriving DecidableEq, Repr

/-- The wording of an error. -/
def DefinitionError.message : DefinitionError → String
  | .unreadable path reason => "failed to read " ++ path ++ ": " ++ reason
  | .faulty origin _ => "failed to parse definition " ++ origin
  | .emptyId path => "invalid construct path '" ++ path ++ "': empty construct id"
  | .undeclaredParent path parent =>
    "invalid construct path '" ++ path ++ "': parent '" ++ parent
      ++ "' is not declared before it"
  | .unknownPath path site =>
    "unknown construct '" ++ path ++ "' referenced from '" ++ site ++ "'"
  | .expression site error => "invalid expression in '" ++ site ++ "': " ++ error.message
  | .construct error => error.message

end StackSynth
