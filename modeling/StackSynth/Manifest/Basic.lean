/-
This file holds manifests: what deployment reads after synthesis. A manifest names, for every
top-level stack, the template to deploy, the environment, the assets to publish with the
parameters that receive what publishing yields, and the stacks to deploy first.
-/

import StackSynth.Asset.Registry
import StackSynth.Json.Printer

namespace StackSynth

/-- What a publisher needs for one asset. -/
structure Manifest.Asset where
  id : String
  packaging : Asset.Packaging
  path : String
  sourceHash : ContentHash
  /-- The parameter that receives the value of each slot, by the name of the slot. -/
  parameters : SortedMap String String

/-- A top-level stack as deployment sees it. -/
structure Manifest.Artifact where
  templateFile : String
  environment : String
  assets : List Manifest.Asset
  /-- The names of the stacks to deploy first. -/
  dependencies : List String

/-- The manifest of an application. -/
structure Manifest where
  version : String
  /-- The top-level stacks by name. -/
  artifacts : SortedMap String Manifest.Artifact

namespace Manifest

/-- The version of the manifests written here. -/
def currentVersion : String := "1.0.0"

/-- The manifest without stacks. -/
def empty : Manifest := ⟨currentVersion, ∅⟩

/-- A registered asset as the manifest lists it. -/
def Asset.ofRecord (record : StackSynth.Asset.Record) : Asset :=
  ⟨record.hash, record.packaging, record.path, record.hash, record.parameterNames⟩

/-- The asset as it is written. -/
def Asset.toJson (asset : Asset) : Json :=
  .object [("id", .string asset.id), ("packaging", .string asset.packaging.name),
    ("path", .string asset.path), ("sourceHash", .string asset.sourceHash),
    ("parameters", .object (asset.parameters.mapValues .string).entries)]

/-- The stack as it is written. -/
def Artifact.toJson (artifact : Artifact) : Json :=
  .object [("templateFile", .string artifact.templateFile),
    ("environment", .string artifact.environment),
    ("assets", .array (artifact.assets.map Asset.toJson)),
    ("dependencies", Json.strings artifact.dependencies)]

/-- The manifest as it is written. -/
def toJson (manifest : Manifest) : Json :=
  .object [("version", .string manifest.version),
    ("artifacts", .object (manifest.artifacts.mapValues Artifact.toJson).entries)]

/-- The identity of a manifest: that of its text in one line. -/
def hash (manifest : Manifest) : String := shortTextHash manifest.toJson.compact

end Manifest

end StackSynth
