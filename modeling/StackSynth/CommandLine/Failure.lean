/-
This file words the failures of commands. A failure is told from the outside in: what the command
was about to do, what went wrong there, and what that came from.
-/

import StackSynth.Definition.Error
import StackSynth.Synthesis.Error

namespace StackSynth

/-- What an error comes from, as far as it is told apart from the error. -/
def ConstructError.causes : ConstructError → List String
  | .asset error => [error.cause.message]
  | _ => []

/-- What an error comes from. -/
def DefinitionError.causes : DefinitionError → List String
  | .unreadable _ reason => [reason]
  | .construct error => error.causes
  | _ => []

/-- What an error comes from. -/
def SynthesisError.causes : SynthesisError → List String
  | .construct error => error.causes
  | .asset error => [error.cause.message]
  | .write _ cause => [cause.message]
  | _ => []

namespace CommandLine

/-- A failure of a command. -/
structure Failure where
  /-- What the command was about to do. -/
  context : String
  /-- What went wrong, outermost first. -/
  chain : List String
deriving DecidableEq, Repr

namespace Failure

/-- The failure to use a definition. -/
def ofDefinition (context : String) (error : DefinitionError) : Failure :=
  ⟨context, error.message :: error.causes⟩

/-- The failure to synthesize an application. -/
def ofSynthesis (context : String) (error : SynthesisError) : Failure :=
  ⟨context, error.message :: error.causes⟩

/-- The failure to order stacks. -/
def ofDeploy (context : String) (error : DeployError) : Failure := ⟨context, [error.message]⟩

/-- The failure to look up what a stack depends on, which is told without a context. -/
def ofUnplaced (error : DeployError) : Failure := ⟨error.message, []⟩

/-- The failure in one line. -/
def line (failure : Failure) : String := ": ".intercalate (failure.context :: failure.chain)

/-- A text behind a label, its further lines under the first. -/
def labelled (label : String) (text : String) : String :=
  let indent := String.ofList ('\n' :: List.replicate label.length ' ')
  label ++ indent.intercalate (text.splitOn "\n")

/-- The label of a cause among several. -/
def label (index : Nat) : String := "    " ++ toString index ++ ": "

/-- The causes, each on a line of its own; several ones are counted. -/
def causes : List String → String
  | [] => ""
  | [cause] => "\n\nCaused by:\n" ++ labelled "    " cause
  | chain =>
    "\n\nCaused by:\n"
      ++ "\n".intercalate (chain.mapIdx (fun index cause => labelled (label index) cause))

/-- The failure in full. -/
def report (failure : Failure) : String :=
  "Error: " ++ failure.context ++ causes failure.chain ++ "\n"

end Failure

end CommandLine

end StackSynth
