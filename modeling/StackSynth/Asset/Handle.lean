/-
This file holds the values that the handle of an asset gives access to. All of them are deferred,
and all their leaves are slots of the asset on its top-level stack.
-/

import StackSynth.Deferred.Basic

namespace StackSynth.Asset

/-- An asset in the tree: its construct, the top-level stack that declares its parameters, and
its content. -/
structure Handle where
  node : NodeId
  stack : NodeId
  hash : ContentHash
deriving DecidableEq, Repr

namespace Handle

/-- The value of one slot. -/
def slot (handle : Handle) (slot : Slot) : Deferred := .slot handle.stack handle.hash slot

/-- What separates the version from the name in the versioned key. -/
def keySeparator : String := "||"

/-- A part of the versioned key. -/
def keyPart (handle : Handle) (index : Nat) : Deferred :=
  .select index (.split keySeparator (handle.slot .versionedKey))

/-- The bucket that holds a file. -/
def bucketName (handle : Handle) : Deferred := handle.slot .bucket

/-- The key of a file in its bucket: both parts of the versioned key. -/
def objectKey (handle : Handle) : Deferred :=
  .join "" [handle.keyPart 0, handle.keyPart 1]

/-- The hash that the publisher found. -/
def artifactHash (handle : Handle) : Deferred := handle.slot .artifactHash

/-- The address of a file on the web. -/
def webUrl (handle : Handle) : Deferred :=
  .join "" [.text "https://s3.", .pseudo .region, .text ".", .pseudo .urlSuffix, .text "/",
    handle.bucketName, .text "/", handle.objectKey]

/-- The address of a file in its bucket. -/
def bucketUrl (handle : Handle) : Deferred :=
  .join "" [.text "s3://", handle.bucketName, .text "/", handle.objectKey]

/-- The repository and the tag of an image. -/
def imageName (handle : Handle) : Deferred := handle.slot .imageName

/-- The address of an image. -/
def imageAddress (handle : Handle) : Deferred :=
  .join "" [.pseudo .accountId, .text ".dkr.ecr.", .pseudo .region, .text ".", .pseudo .urlSuffix,
    .text "/", handle.imageName]

/-! ### Leaves -/

variable (handle : Handle)

@[simp] theorem leaves_bucketName :
    handle.bucketName.leaves = [.asset handle.stack handle.hash .bucket] := rfl

@[simp] theorem leaves_objectKey : handle.objectKey.leaves =
    [.asset handle.stack handle.hash .versionedKey,
      .asset handle.stack handle.hash .versionedKey] := rfl

@[simp] theorem leaves_artifactHash :
    handle.artifactHash.leaves = [.asset handle.stack handle.hash .artifactHash] := rfl

@[simp] theorem leaves_webUrl :
    handle.webUrl.leaves = handle.bucketName.leaves ++ handle.objectKey.leaves := rfl

@[simp] theorem leaves_bucketUrl :
    handle.bucketUrl.leaves = handle.bucketName.leaves ++ handle.objectKey.leaves := rfl

@[simp] theorem leaves_imageName :
    handle.imageName.leaves = [.asset handle.stack handle.hash .imageName] := rfl

@[simp] theorem leaves_imageAddress : handle.imageAddress.leaves = handle.imageName.leaves := rfl

end Handle

end StackSynth.Asset
