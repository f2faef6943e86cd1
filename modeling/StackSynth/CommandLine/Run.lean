/-
This file runs commands on a file system. What a command prints is text for people or, if that is
asked for, indented JSON; what it writes is in the file system that it leaves.
-/

import StackSynth.CommandLine.Arguments
import StackSynth.CommandLine.Failure
import StackSynth.Definition.Build
import StackSynth.Synthesis.Output

namespace StackSynth.CommandLine

/-- What a command leaves behind. -/
structure Outcome where
  code : Nat
  stdout : String
  stderr : String
  system : FileSystem

namespace Outcome

/-- The outcome of a command that has done what it was asked for. -/
def success (stdout : String) (system : FileSystem) : Outcome := ⟨0, stdout, "", system⟩

/-- The outcome of a command that has failed. -/
def failed (failure : Failure) (system : FileSystem) : Outcome := ⟨1, "", failure.report, system⟩

end Outcome

/-! ### Text for people -/

/-- A line behind a sign. -/
def marked (sign : String) (text : String) : String := sign ++ " " ++ text ++ "\n"

/-- A labelled value, indented. -/
def stat (label value : String) : String := "  " ++ label ++ ": " ++ value ++ "\n"

/-- Names with commas between them, or a hyphen for none. -/
def listed : List String → String
  | [] => "-"
  | names => ", ".intercalate names

/-- The digits of a hash that people compare. -/
def shortened (hash : ContentHash) : String := String.ofList (hash.toList.take 12)

/-- An indented JSON value on lines of its own. -/
def printed (value : Json) : String := value.pretty ++ "\n"

/-! ### Synthesis -/

/-- The lines of an asset. -/
def assetLine (asset : Manifest.Asset) : String :=
  "    " ++ marked "•" (shortened asset.sourceHash ++ " " ++ asset.path)

/-- The lines of a stack. -/
def stackLines (verbose : Bool) (name : String) (artifact : Manifest.Artifact) : String :=
  marked "✓" (name ++ " → " ++ artifact.templateFile)
    ++ stat "Environment" artifact.environment
    ++ stat "Assets" (toString artifact.assets.length)
    ++ stat "Depends on" (listed artifact.dependencies)
    ++ if verbose then String.join (artifact.assets.map assetLine) else ""

/-- What synthesis tells people. -/
def assemblyText (verbose : Bool) (directory : String) (assembly : Assembly) : String :=
  String.join (assembly.manifest.artifacts.entries.map (fun entry =>
      stackLines verbose entry.1 entry.2))
    ++ "\n"
    ++ marked "•" ("Wrote " ++ toString assembly.documents.size ++ " document(s) to " ++ directory)
    ++ if verbose then stat "Manifest" assembly.manifest.hash else ""

/-- A stack as synthesis lists it. -/
def stackSummary (name : String) (artifact : Manifest.Artifact) : Json :=
  .object [("name", .string name), ("template", .string artifact.templateFile),
    ("environment", .string artifact.environment),
    ("assets", Json.natural artifact.assets.length),
    ("dependencies", Json.strings artifact.dependencies)]

/-- What synthesis tells programs. -/
def assemblyJson (directory : String) (assembly : Assembly) : Json :=
  .object [("output_dir", .string directory),
    ("manifest_hash", .string assembly.manifest.hash),
    ("stacks", .array (assembly.manifest.artifacts.entries.map (fun entry =>
      stackSummary entry.1 entry.2))),
    ("documents", Json.strings assembly.documents.keys)]

/-- The answer of synthesis after writing. -/
def assemblyOutcome (arguments : Arguments) (directory : String) (assembly : Assembly)
    (system : FileSystem) : Outcome :=
  if arguments.json then .success (printed (assemblyJson directory assembly)) system
  else
    { Outcome.success (assemblyText arguments.verbose directory assembly) system with
      stderr :=
        if assembly.manifest.artifacts.isEmpty then marked "⚠" "Definition declares no stacks"
        else "" }

/-- The application that a file defines. -/
def load (system : FileSystem) (definition : String) : Except Failure Application :=
  (Definition.load system definition).mapError
    (.ofDefinition ("Failed to load definition: " ++ definition))

/-- Loads a definition and assembles what is deployed. -/
def assembled (system : FileSystem) (definition : String) : Except Failure Assembly := do
  let app ← load system definition
  (app.synthesize (Asset.localBundler system)).mapError (.ofSynthesis "Synthesis failed")

/-- Writes the assembly of a definition. -/
def synthesize (system : FileSystem) (arguments : Arguments) (definition : String)
    (directory : Option String) (compact : Bool) : Outcome :=
  match assembled system definition with
  | .error failure => .failed failure system
  | .ok assembly =>
    let options : OutputOptions :=
      { OutputOptions.standard with
        directory := directory.getD OutputOptions.standard.directory
        indented := !compact }
    match assembly.writeTo options system with
    | (.error error, system) =>
      .failed (.ofSynthesis ("Failed to write assembly to " ++ options.directory) error) system
    | (.ok _, system) => assemblyOutcome arguments options.directory assembly system

/-! ### The order of deployment -/

/-- The order of deployment, in names. -/
structure DeployPlan where
  waves : List (List String)
  /-- The names of the stacks that each stack depends on. -/
  dependencies : SortedMap String (List String)

/-- The plan of a prepared application. -/
def DeployPlan.ofPrepared (tree : Tree) (prepared : Prepared) (algorithms : GraphAlgorithms) :
    Except Failure DeployPlan := do
  let graph := prepared.graph
  let waves ← (graph.wavesBy algorithms).mapError (.ofDeploy "Failed to order stacks")
  let dependencies ← tree.topLevelStacks.mapM (fun stack => do
    return (graph.name stack, ← (graph.dependencyNames stack).mapError .ofUnplaced))
  return ⟨waves.map (·.map graph.name), SortedMap.ofList dependencies⟩

/-- Loads a definition and plans its deployment. -/
def plannedBy (system : FileSystem) (definition : String) (algorithms : GraphAlgorithms) :
    Except Failure DeployPlan := do
  let app ← load system definition
  let prepared ← (app.prepareBy (Asset.localBundler system) algorithms).mapError
    (.ofSynthesis "Failed to prepare application")
  DeployPlan.ofPrepared app.tree prepared algorithms

/-- Loads a definition and plans its deployment, by the plain algorithms. -/
def planned (system : FileSystem) (definition : String) : Except Failure DeployPlan :=
  plannedBy system definition .plain

/-- A plan for people: its waves, and below them the dependencies, if there are any. -/
def DeployPlan.text (plan : DeployPlan) : String :=
  String.join (plan.waves.mapIdx (fun index wave =>
      marked "•" ("Wave " ++ toString (index + 1) ++ ": " ++ ", ".intercalate wave)))
    ++ if plan.dependencies.values.all List.isEmpty then ""
      else "\n" ++ String.join (plan.dependencies.entries.map (fun entry =>
        stat entry.1 (listed entry.2)))

/-- A plan for programs. -/
def DeployPlan.toJson (plan : DeployPlan) : Json :=
  .object [("waves", .array (plan.waves.map Json.strings)),
    ("dependencies", .object (plan.dependencies.mapValues Json.strings).entries)]

/-- Shows the order of deployment. -/
def graph (system : FileSystem) (arguments : Arguments) (definition : String) : Outcome :=
  match planned system definition with
  | .error failure => .failed failure system
  | .ok plan =>
    .success (if arguments.json then printed plan.toJson else plan.text) system

/-! ### Validation -/

/-- What is counted of a valid definition. -/
structure Summary where
  references : Nat
  nestedStacks : Nat

/-- Loads and synthesizes a definition. -/
def validated (system : FileSystem) (definition : String) : Except Failure Summary := do
  let app ← load system definition
  let prepared ← (app.prepare (Asset.localBundler system)).mapError
    (.ofSynthesis "Failed to prepare application")
  let _ ← (prepared.assembly app.tree).mapError (.ofSynthesis "Synthesis failed")
  return ⟨prepared.wired.length, prepared.rendering.embedded.size⟩

/-- The result of validation for programs. -/
def validationJson (error : Option String) (summary : Summary) : Json :=
  .object (("valid", .bool error.isNone)
    :: (Json.optionalMember "error" .string error
      ++ [("references", Json.natural summary.references),
        ("nested_stacks", Json.natural summary.nestedStacks)]))

/-- Checks a definition without writing anything. -/
def validate (system : FileSystem) (arguments : Arguments) (definition : String) : Outcome :=
  match validated system definition with
  | .ok summary =>
    if arguments.json then .success (printed (validationJson none summary)) system
    else
      .success (marked "✓" (definition ++ " is valid (" ++ toString summary.references
        ++ " reference(s), " ++ toString summary.nestedStacks ++ " nested stack(s))")) system
  | .error failure =>
    if arguments.json then
      ⟨1, printed (validationJson (some failure.line) ⟨0, 0⟩), "", system⟩
    else ⟨1, "", marked "✗" failure.line, system⟩

/-! ### All commands -/

/-- Runs a command. -/
def runCommand (system : FileSystem) (arguments : Arguments) : Outcome :=
  match arguments.command with
  | .synthesize definition directory compact =>
    synthesize system arguments definition directory compact
  | .graph definition => graph system arguments definition
  | .validate definition => validate system arguments definition

/-- Runs the command that arguments ask for. -/
def run (system : FileSystem) (arguments : List String) : Outcome :=
  match Arguments.ofList arguments with
  | .ok arguments => runCommand system arguments
  | .error error => ⟨2, "", "error: " ++ error.message ++ "\n", system⟩

end StackSynth.CommandLine
