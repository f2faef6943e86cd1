/-
This file proves that a manifest is read back from what is written of it. All of its fields are
written, each under the name under which it is read, and no number stands among them; so the line
in which a manifest is written tells it from all others.
-/

import StackSynth.Manifest.Reading
import StackSynth.Proofs.Json.Outlining
import StackSynth.Proofs.Json.Rereading

namespace StackSynth.Manifest

open Json (Fault Outline)
open Outcome

/-! ### Outlines -/

theorem readPackaging_name {depth : Nat} (packaging : StackSynth.Asset.Packaging) :
    readPackaging depth (Json.outline (.string packaging.name)) = .ok packaging := by
  cases packaging <;> rfl

theorem readAsset_toJson {depth : Nat} (entered : Outline.enter depth = .ok ())
    (enteredNext : Outline.enter (depth + 1) = .ok ()) (asset : Asset) :
    readAsset depth (Json.outline asset.toJson) = .ok asset := by
  have packaging : readPackaging (depth + 1) (Json.outline (.string asset.packaging.name)) =
      .ok asset.packaging := readPackaging_name asset.packaging
  have parameters : (Json.outline (.object (asset.parameters.mapValues .string).entries)).map
      (depth + 1) Outline.text = .ok asset.parameters :=
    Json.map_outline enteredNext .string fun _ _ => rfl
  refine bind_eq_ok.mpr ⟨_, bind_eq_ok.mpr ⟨(), entered, rfl⟩, bind_eq_ok.mpr
    ⟨⟨some asset.id, some asset.packaging, some asset.path, some asset.sourceHash,
      some asset.parameters⟩, ?_, rfl⟩⟩
  rw [Json.fold_outline]
  simp only [List.foldlM_cons, List.foldlM_nil, AssetDraft.step, packaging, parameters]
  rfl

theorem readArtifact_toJson {depth : Nat} (entered : ∀ further ≤ 3,
    Outline.enter (depth + further) = .ok ()) (artifact : Artifact) :
    readArtifact depth (Json.outline artifact.toJson) = .ok artifact := by
  have assets : (Json.outline (.array (artifact.assets.map Asset.toJson))).list (depth + 1)
      (readAsset (depth + 2)) = .ok artifact.assets :=
    Json.list_outline (entered 1 (by decide)) Asset.toJson fun asset _ =>
      readAsset_toJson (entered 2 (by decide)) (entered 3 (by decide)) asset
  have dependencies : (Json.outline (Json.strings artifact.dependencies)).list (depth + 1)
      Outline.text = .ok artifact.dependencies :=
    Json.list_outline (entered 1 (by decide)) .string fun _ _ => rfl
  refine bind_eq_ok.mpr ⟨_, bind_eq_ok.mpr ⟨(), entered 0 (by decide), rfl⟩, bind_eq_ok.mpr
    ⟨⟨some artifact.templateFile, some artifact.environment, some artifact.assets,
      some artifact.dependencies⟩, ?_, rfl⟩⟩
  rw [Json.fold_outline]
  simp only [List.foldlM_cons, List.foldlM_nil, ArtifactDraft.step, assets, dependencies]
  rfl

/-- A manifest is read back from what is written of it. -/
theorem read_toJson (manifest : Manifest) : read (Json.outline manifest.toJson) = .ok manifest := by
  have artifacts : (Json.outline (.object (manifest.artifacts.mapValues Artifact.toJson).entries)).map
      1 (readArtifact 2) = .ok manifest.artifacts :=
    Json.map_outline (by decide) Artifact.toJson fun entry _ =>
      readArtifact_toJson (by decide) entry.2
  refine bind_eq_ok.mpr ⟨_, bind_eq_ok.mpr ⟨(), rfl, rfl⟩, bind_eq_ok.mpr
    ⟨⟨some manifest.version, some manifest.artifacts⟩, ?_, rfl⟩⟩
  rw [Json.fold_outline]
  simp only [List.foldlM_cons, List.foldlM_nil, Draft.step, artifacts]
  rfl

/-! ### Texts -/

theorem numberless_asset (asset : Asset) : asset.toJson.Numberless :=
  ⟨trivial, trivial, trivial, trivial, Json.numberless_object fun _ _ => trivial, trivial⟩

theorem numberless_artifact (artifact : Artifact) : artifact.toJson.Numberless :=
  ⟨trivial, trivial, Json.numberless_array fun asset _ => numberless_asset asset,
    Json.numberless_array fun _ _ => trivial, trivial⟩

theorem numberless_toJson (manifest : Manifest) : manifest.toJson.Numberless :=
  ⟨trivial, Json.numberless_object fun entry _ => numberless_artifact entry.2, trivial⟩

/-- The line in which a manifest is written holds the manifest. -/
theorem ofText_compact (manifest : Manifest) :
    ofText manifest.toJson.compact = .ok manifest := by
  rw [ofText, Json.ofText_compact (numberless_toJson manifest)]
  exact bind_eq_ok.mpr ⟨manifest, read_toJson manifest, rfl⟩

end StackSynth.Manifest
