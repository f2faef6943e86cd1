/-
This file holds assets: content that a publisher uploads before a stack is deployed. What the
upload yields is known only at deployment, so the template of the stack declares a parameter for
each value, a slot of the asset.
-/

import StackSynth.FileSystem.Digest
import StackSynth.Json.Printer

namespace StackSynth.Asset

/-- How an asset is published. -/
inductive Packaging where
  | file
  | containerImage
deriving DecidableEq, Repr

/-- A value that publishing an asset yields. -/
inductive Slot where
  | bucket
  | versionedKey
  | artifactHash
  | imageName
deriving DecidableEq, Repr

namespace Slot

/-- The name of a slot. -/
def name : Slot → String
  | .bucket => "S3Bucket"
  | .versionedKey => "S3VersionKey"
  | .artifactHash => "ArtifactHash"
  | .imageName => "ImageName"

/-- The place of a slot among all slots. -/
def rank : Slot → Nat
  | .bucket => 0
  | .versionedKey => 1
  | .artifactHash => 2
  | .imageName => 3

theorem rank_injective {first second : Slot} (same : first.rank = second.rank) :
    first = second := by
  cases first <;> cases second <;> simp_all [rank]

/-- What the parameter of a slot is for. -/
def description (hash : ContentHash) : Slot → String
  | .bucket => "S3 bucket for asset \"" ++ hash ++ "\""
  | .versionedKey => "S3 key for asset version \"" ++ hash ++ "\""
  | .artifactHash => "Artifact hash for asset \"" ++ hash ++ "\""
  | .imageName => "ECR repository name and tag for asset \"" ++ hash ++ "\""

end Slot

namespace Packaging

/-- The values that publishing yields. -/
def slots : Packaging → List Slot
  | .file => [.bucket, .versionedKey, .artifactHash]
  | .containerImage => [.imageName]

/-- The packaging as it is written. -/
def name : Packaging → String
  | .file => "file"
  | .containerImage => "container-image"

/-- The packaging as messages call it. -/
def title : Packaging → String
  | .file => "File"
  | .containerImage => "ContainerImage"

end Packaging

/-- A container image: the directory it is built from, and how it is built. -/
structure Image where
  directory : String
  buildArguments : SortedMap String String
  target : Option String
  file : Option String
  repositoryName : Option String

/-- What an asset is made of. -/
inductive Source where
  /-- A single file. -/
  | file (path : String)
  /-- A directory without the entries of excluded names. -/
  | directory (path : String) (exclude : List String)
  /-- Bytes produced during synthesis. -/
  | inline (name : String) (contents : ByteArray)
  /-- A container image built from a directory. -/
  | image (recipe : Image)

namespace Source

/-- How the source is published. -/
def packaging : Source → Packaging
  | .image _ => .containerImage
  | _ => .file

/-- Where the publisher finds the content. -/
def localPath : Source → String
  | .file path => path
  | .directory path _ => path
  | .inline name _ => name
  | .image recipe => recipe.directory

end Source

/-- Why an asset cannot be identified. -/
structure Error where
  path : String
  cause : HashError
deriving DecidableEq, Repr

/-- The wording of an error. -/
def Error.message (error : Error) : String :=
  "failed to hash asset '" ++ error.path ++ "': " ++ error.cause.message

/-- A way of identifying the content of assets. -/
abbrev Bundler := Source → Except Error ContentHash

/-! ### Content on a file system -/

/-- How an image is built, without the place of its directory. -/
def Image.options (image : Image) : Json :=
  let optional (value : Option String) : Json := (value.map .string).getD .null
  .object [
    ("build_args", .object (image.buildArguments.mapValues .string).entries),
    ("target", optional image.target),
    ("file", optional image.file),
    ("repository_name", optional image.repositoryName)]

/-- Identifies content on a file system. An image is identified by the content of its directory
and by how it is built, so equal images in different directories are one asset. -/
def localBundler (system : FileSystem) : Bundler
  | .file path => (system.fileHash path).mapError (⟨path, ·⟩)
  | .directory path exclude => (system.directoryHash path exclude).mapError (⟨path, ·⟩)
  | .inline _ contents => .ok (contentHash contents)
  | .image recipe => do
    let context ← (system.directoryHash recipe.directory []).mapError (⟨recipe.directory, ·⟩)
    return textHash (context ++ "\n" ++ recipe.options.compact)

end StackSynth.Asset
