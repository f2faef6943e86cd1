/-
This file holds the reasons why an application cannot be synthesized or written out.
-/

import StackSynth.Deployment.Graph
import StackSynth.Construct.Basic

namespace StackSynth

/-- Why an application has no assembly, or the assembly cannot be written. -/
inductive SynthesisError where
  | construct (error : ConstructError)
  | resolve (error : ResolveError)
  | asset (error : Asset.Error)
  | deploy (error : DeployError)
  /-- A stack imports from a stack that is known to be deployed elsewhere. -/
  | crossEnvironment (importer : String) (importerAddress : String) (exporter : String)
    (exporterAddress : String)
  | duplicateStackName (name : String)
  | duplicateLogicalId (stack : String) (kind : String) (id : String)
  /-- A nested stack is rendered before its template has a location. -/
  | unlocated (stack : String)
  /-- A nested stack stands in no stack. -/
  | unenclosed (stack : String)
  | write (path : String) (cause : OsError)
deriving DecidableEq, Repr

/-- The wording of an error. -/
def SynthesisError.message : SynthesisError → String
  | .construct error => error.message
  | .resolve error => error.message
  | .asset error => error.message
  | .deploy error => error.message
  | .crossEnvironment importer importerAddress exporter exporterAddress =>
    "stack '" ++ importer ++ "' (" ++ importerAddress ++ ") cannot reference stack '" ++ exporter
      ++ "' (" ++ exporterAddress ++ "): cross-environment references are not supported"
  | .duplicateStackName name => "two stacks are named '" ++ name ++ "'"
  | .duplicateLogicalId stack kind id =>
    "duplicate " ++ kind ++ " logical id '" ++ id ++ "' in stack '" ++ stack ++ "'"
  | .unlocated stack =>
    "internal consistency error: nested stack '" ++ stack ++ "' has no template location"
  | .unenclosed stack =>
    "internal consistency error: nested stack '" ++ stack ++ "' has no enclosing stack"
  | .write path cause => "failed to write " ++ path ++ ": " ++ cause.message

end StackSynth
