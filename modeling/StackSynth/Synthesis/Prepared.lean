/-
This file prepares an application for synthesis. First all references are found and wired. Then
the nested stacks are rendered, the deepest first, because the address of a template holds the
hash of its text and reaches the stack around it as further references: each template is an asset
of its top-level stack, and the values that locate it are wired to where it is embedded. At last
the dependencies between top-level stacks are checked: they must stay within environments and have
no cycle.
-/

import StackSynth.Application.Basic
import StackSynth.Synthesis.Rendering

namespace StackSynth

/-- An application whose references are wired and whose nested stacks are rendered. -/
structure Prepared where
  rendering : Rendering
  /-- The assets of the application and the templates of its nested stacks. -/
  assets : Asset.Registry
  /-- The wired references in the order of wiring, each with the boundary it crosses. -/
  wired : List (Reference × Boundary)

namespace Prepared

/-- What wiring has added. -/
def wiring (prepared : Prepared) : Wiring := prepared.rendering.wiring

/-- The dependencies between top-level stacks. -/
def graph (prepared : Prepared) : DeployGraph := prepared.wiring.graph

/-- The top-level stacks under their names, without dependencies. -/
def stackGraph (tree : Tree) : DeployGraph :=
  tree.topLevelStacks.foldl (fun graph stack => graph.addStack stack (tree.stackName stack)) .empty

/-- The application with its own references wired. -/
def start (app : Application) : Except SynthesisError Prepared := do
  let references ← app.tree.references.mapError .resolve
  let (wired, wiring) ←
    (Wiring.wireAll app.tree (.start (stackGraph app.tree)) references).mapError .resolve
  return ⟨⟨wiring, ∅⟩, app.assets, wired⟩

/-- Puts a stack before the first of stacks that does not lie deeper than it. -/
def placeByDepth (tree : Tree) (stack : NodeId) : List NodeId → List NodeId
  | [] => [stack]
  | first :: rest =>
    if (tree.stackChain first).length ≤ (tree.stackChain stack).length then stack :: first :: rest
    else first :: placeByDepth tree stack rest

/-- The nested stacks, the deepest first and otherwise in the order of the tree. -/
def nestedStacks (tree : Tree) : List NodeId :=
  (tree.allStacks.filter tree.isNested).foldr (placeByDepth tree) []

/-- The document that holds the template of a nested stack. -/
def nestedFile (tree : Tree) (stack : NodeId) : String :=
  tree.uniqueId stack ++ ".nested.template.json"

/-- Wires further references. -/
def wireMore (tree : Tree) (prepared : Prepared) (references : List Reference) :
    Except SynthesisError Prepared := do
  let (wired, wiring) ←
    (Wiring.wireAll tree prepared.wiring references).mapError .resolve
  return { prepared with
    rendering := { prepared.rendering with wiring := wiring }
    wired := prepared.wired ++ wired }

/-- Renders a nested stack, registers its template as an asset and wires what locates it to the
stack around it. -/
def embed (tree : Tree) (bundler : Asset.Bundler) (prepared : Prepared) (stack : NodeId) :
    Except SynthesisError Prepared := do
  let template ← prepared.rendering.template tree stack ∅
  let file := nestedFile tree stack
  let source : Asset.Source := .inline file template.toJson.compact.toUTF8
  let hash ← (bundler source).mapError .asset
  match tree.topLevelOf? stack, tree.parentStack? stack with
  | some top, some parent =>
    let handle : Asset.Handle := ⟨stack, top, hash⟩
    let references ←
      (tree.referencesAmong stack parent [] handle.webUrl.leaves).mapError .resolve
    let prepared ← prepared.wireMore tree references
    return { prepared with
      rendering := { prepared.rendering with
        embedded := prepared.rendering.embedded.insert stack ⟨file, template, handle.webUrl⟩ }
      assets := (prepared.assets.register top ⟨hash, source.packaging, file⟩).1 }
  | _, _ => throw (.unenclosed (tree.path stack))

/-- Refuses a stack that imports from another one in a conflicting environment. -/
def checkEnvironments (tree : Tree) (graph : DeployGraph) (importer exporter : NodeId) :
    Except SynthesisError Unit := do
  let importing ← (tree.environment importer).mapError .construct
  let exporting ← (tree.environment exporter).mapError .construct
  if importing.conflictsWith exporting then
    throw (.crossEnvironment (graph.name importer) importing.address (graph.name exporter)
      exporting.address)

/-- Refuses dependencies that cannot be deployed. -/
def checkGraphBy (tree : Tree) (graph : DeployGraph) (algorithms : GraphAlgorithms) :
    Except SynthesisError Unit := do
  graph.edges.forM (fun edge => checkEnvironments tree graph edge.1 edge.2)
  (graph.verifyAcyclicBy algorithms).mapError .deploy

/-- Refuses dependencies that cannot be deployed, by the plain algorithms. -/
def checkGraph (tree : Tree) (graph : DeployGraph) : Except SynthesisError Unit :=
  checkGraphBy tree graph .plain

end Prepared

namespace Application

/-- Prepares an application for synthesis. -/
def prepareBy (app : Application) (bundler : Asset.Bundler) (algorithms : GraphAlgorithms) :
    Except SynthesisError Prepared := do
  let started ← Prepared.start app
  let prepared ← (Prepared.nestedStacks app.tree).foldlM (Prepared.embed app.tree bundler) started
  Prepared.checkGraphBy app.tree prepared.graph algorithms
  return prepared

/-- Prepares an application for synthesis, by the plain algorithms. -/
def prepare (app : Application) (bundler : Asset.Bundler) : Except SynthesisError Prepared :=
  app.prepareBy bundler .plain

end Application

end StackSynth
