/-
This file assembles what is deployed: a document for every stack and the manifest that tells how
to deploy them.
-/

import StackSynth.Manifest.Basic
import StackSynth.Synthesis.Prepared

namespace StackSynth

/-- The documents of an application and their manifest. -/
structure Assembly where
  manifest : Manifest
  /-- The templates by the name of their file. -/
  documents : SortedMap String Template

namespace Assembly

/-- The assembly without stacks. -/
def empty : Assembly := ⟨.empty, ∅⟩

/-- The document that holds the template of a top-level stack. -/
def templateFile (name : String) : String := name ++ ".template.json"

/-- The document that holds the manifest. -/
def manifestFile : String := "manifest.json"

/-- Adds the document and the manifest entry of a top-level stack. -/
def addStack (tree : Tree) (prepared : Prepared) (assembly : Assembly) (stack : NodeId) :
    Except SynthesisError Assembly := do
  let name := tree.stackName stack
  if assembly.manifest.artifacts.contains name then throw (.duplicateStackName name)
  let template ←
    prepared.rendering.template tree stack (prepared.assets.parametersOf stack)
  let environment ← (tree.environment stack).mapError .construct
  let dependencies ← (prepared.graph.dependencyNames stack).mapError .deploy
  let artifact : Manifest.Artifact :=
    ⟨templateFile name, environment.address,
      (prepared.assets.assetsOf stack).map Manifest.Asset.ofRecord, dependencies⟩
  return {
    manifest :=
      { assembly.manifest with artifacts := assembly.manifest.artifacts.insert name artifact }
    documents := assembly.documents.insert (templateFile name) template }

/-- Adds the document of a nested stack. -/
def addEmbedded (assembly : Assembly) (embedded : EmbeddedTemplate) : Assembly :=
  { assembly with documents := assembly.documents.insert embedded.file embedded.template }

/-- The template of the top-level stack of a name. -/
def templateOf? (assembly : Assembly) (name : String) : Option Template := do
  let artifact ← assembly.manifest.artifacts.get? name
  assembly.documents.get? artifact.templateFile

end Assembly

/-- The assembly of a prepared application. -/
def Prepared.assembly (prepared : Prepared) (tree : Tree) : Except SynthesisError Assembly := do
  let assembly ← tree.topLevelStacks.foldlM (Assembly.addStack tree prepared) .empty
  return prepared.rendering.embedded.values.foldl Assembly.addEmbedded assembly

namespace Application

/-- Prepares an application and assembles it. -/
def synthesizeBy (app : Application) (bundler : Asset.Bundler) (algorithms : GraphAlgorithms) :
    Except SynthesisError Assembly := do
  (← app.prepareBy bundler algorithms).assembly app.tree

/-- Prepares an application and assembles it, by the plain algorithms. -/
def synthesize (app : Application) (bundler : Asset.Bundler) : Except SynthesisError Assembly :=
  app.synthesizeBy bundler .plain

end Application

end StackSynth
