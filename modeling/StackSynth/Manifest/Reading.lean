/-
This file reads manifests. Fields may stand in any order and unknown ones are passed over; a field
that is given twice, or missing without having a default, is a mismatch.
-/

import StackSynth.Json.Scanner
import StackSynth.Manifest.Basic

namespace StackSynth.Manifest

open Json (Fault Outline)

/-! ### Packaging -/

/-- The packaging of a name. -/
def packagingNamed (name : String) : Except Fault StackSynth.Asset.Packaging :=
  if name = StackSynth.Asset.Packaging.file.name then .ok .file
  else if name = StackSynth.Asset.Packaging.containerImage.name then .ok .containerImage
  else .error .mismatched

/-- Reads the null that may accompany the name of a packaging. -/
def readNothing : Outline → Except Fault Unit
  | .null => .ok ()
  | other => .error other.unexpected

/-- Reads a packaging: its name, or an object whose only member is null under that name. -/
def readPackaging (depth : Nat) : Outline → Except Fault StackSynth.Asset.Packaging
  | .string name => do packagingNamed (← name)
  | .object members finish => do
    Outline.enter depth
    match members with
    | [] =>
      Outline.readEnd finish
      throw .malformed
    | (name, value) :: others =>
      let packaging ← packagingNamed (← name)
      readNothing value
      if !others.isEmpty then throw .malformed
      Outline.readEnd finish
      return packaging
  | .broken place => .error place.reading
  | _ => .error .malformed

/-! ### Assets -/

/-- The fields of an asset that have been read. -/
structure AssetDraft where
  id : Option String
  packaging : Option StackSynth.Asset.Packaging
  path : Option String
  sourceHash : Option ContentHash
  parameters : Option (SortedMap String String)

namespace AssetDraft

/-- Nothing read. -/
def empty : AssetDraft := ⟨none, none, none, none, none⟩

/-- The fields in their order. -/
def names : List String := ["id", "packaging", "path", "sourceHash", "parameters"]

/-- Reads one field. -/
def step (depth : Nat) (draft : AssetDraft) (name : String) (value : Outline) :
    Except Fault AssetDraft := do
  match name with
  | "id" => return { draft with id := ← Outline.once draft.id value.text }
  | "packaging" =>
    return { draft with packaging := ← Outline.once draft.packaging (readPackaging depth value) }
  | "path" => return { draft with path := ← Outline.once draft.path value.text }
  | "sourceHash" =>
    return { draft with sourceHash := ← Outline.once draft.sourceHash value.text }
  | "parameters" =>
    return { draft with
      parameters := ← Outline.once draft.parameters (value.map depth Outline.text) }
  | _ =>
    value.skip
    return draft

/-- The asset, if no field is missing. -/
def finish (draft : AssetDraft) : Except Fault Asset := do
  return ⟨← Outline.required draft.id, ← Outline.required draft.packaging,
    ← Outline.required draft.path, ← Outline.required draft.sourceHash,
    ← Outline.required draft.parameters⟩

end AssetDraft

/-- Reads an asset below `depth` containers. -/
def readAsset (depth : Nat) (outline : Outline) : Except Fault Asset := do
  let fields ← outline.record depth AssetDraft.names
  (← Outline.fold (AssetDraft.step (depth + 1)) .empty fields).finish

/-! ### Stacks -/

/-- The fields of a stack that have been read. -/
structure ArtifactDraft where
  templateFile : Option String
  environment : Option String
  assets : Option (List Asset)
  dependencies : Option (List String)

namespace ArtifactDraft

/-- Nothing read. -/
def empty : ArtifactDraft := ⟨none, none, none, none⟩

/-- The fields in their order. -/
def names : List String := ["templateFile", "environment", "assets", "dependencies"]

/-- Reads one field. -/
def step (depth : Nat) (draft : ArtifactDraft) (name : String) (value : Outline) :
    Except Fault ArtifactDraft := do
  match name with
  | "templateFile" =>
    return { draft with templateFile := ← Outline.once draft.templateFile value.text }
  | "environment" =>
    return { draft with environment := ← Outline.once draft.environment value.text }
  | "assets" =>
    return { draft with
      assets := ← Outline.once draft.assets (value.list depth (readAsset (depth + 1))) }
  | "dependencies" =>
    return { draft with
      dependencies := ← Outline.once draft.dependencies (value.list depth Outline.text) }
  | _ =>
    value.skip
    return draft

/-- The stack, if no field is missing. A stack may come without assets and dependencies. -/
def finish (draft : ArtifactDraft) : Except Fault Artifact := do
  return ⟨← Outline.required draft.templateFile, ← Outline.required draft.environment,
    draft.assets.getD [], draft.dependencies.getD []⟩

end ArtifactDraft

/-- Reads a stack below `depth` containers. -/
def readArtifact (depth : Nat) (outline : Outline) : Except Fault Artifact := do
  let fields ← outline.record depth ArtifactDraft.names
  (← Outline.fold (ArtifactDraft.step (depth + 1)) .empty fields).finish

/-! ### Manifests -/

/-- The fields of a manifest that have been read. -/
structure Draft where
  version : Option String
  artifacts : Option (SortedMap String Artifact)

namespace Draft

/-- Nothing read. -/
def empty : Draft := ⟨none, none⟩

/-- The fields in their order. -/
def names : List String := ["version", "artifacts"]

/-- Reads one field. -/
def step (depth : Nat) (draft : Draft) (name : String) (value : Outline) :
    Except Fault Draft := do
  match name with
  | "version" => return { draft with version := ← Outline.once draft.version value.text }
  | "artifacts" =>
    return { draft with
      artifacts := ← Outline.once draft.artifacts (value.map depth (readArtifact (depth + 1))) }
  | _ =>
    value.skip
    return draft

/-- The manifest, if no field is missing. -/
def finish (draft : Draft) : Except Fault Manifest := do
  return ⟨← Outline.required draft.version, ← Outline.required draft.artifacts⟩

end Draft

/-- Reads a manifest. -/
def read (outline : Outline) : Except Fault Manifest := do
  let fields ← outline.record 0 Draft.names
  (← Outline.fold (Draft.step 1) .empty fields).finish

/-- The manifest that a text holds. -/
def ofText (text : String) : Except Fault Manifest := (Json.Document.ofText text).take read

end StackSynth.Manifest
