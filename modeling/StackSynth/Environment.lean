/-
This file holds the place a stack is deployed to. Either of its two axes may be left open, and an
open axis is compatible with everything.
-/

import StackSynth.Json.Basic

namespace StackSynth

/-- The account and the region of a stack, as far as they are fixed. -/
structure Environment where
  account : Option String
  region : Option String
deriving DecidableEq, Repr

namespace Environment

/-- The environment that fixes nothing. -/
def unspecified : Environment := ⟨none, none⟩

/-- The environment as an address. -/
def address (environment : Environment) : String :=
  "aws://" ++ environment.account.getD "unknown-account" ++ "/"
    ++ environment.region.getD "unknown-region"

/-- Whether two values of one axis are known to differ. -/
def differ : Option String → Option String → Bool
  | some first, some second => first != second
  | _, _ => false

/-- Whether two environments are known to differ. -/
def conflictsWith (first second : Environment) : Bool :=
  differ first.account second.account || differ first.region second.region

/-- The environment as it is written: the fixed axes only. -/
def toJson (environment : Environment) : Json :=
  .object ((environment.account.map (fun account => ("account", .string account))).toList
    ++ (environment.region.map (fun region => ("region", .string region))).toList)

end Environment

end StackSynth
