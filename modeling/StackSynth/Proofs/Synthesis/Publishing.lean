/-
This file decides when the values of assets that are read can be published. A top-level stack has
one asset for a hash, the first that was registered, and has parameters for the slots of this one
only. What reads an asset knows the asset itself, so it asks for a slot that is not there exactly
if an asset that was registered before shares its hash and is published otherwise. With no two byte
strings sharing a hash this leaves one case: a single file of the very bytes that identify an image
of the same stack.
-/

import StackSynth.Proofs.Asset.Identity
import StackSynth.Proofs.Definition.Building
import StackSynth.Proofs.Synthesis.Finality
import StackSynth.Proofs.Synthesis.Keeping
import StackSynth.Proofs.Synthesis.Merging

namespace StackSynth

open Outcome

/-- An earlier asset of the same content keeps a slot from being declared. -/
def Tree.Overshadows (tree : Tree) (top : NodeId) (hash : ContentHash) (slot : Asset.Slot) : Prop :=
  ∃ packaging, tree.packagingOf? top hash = some packaging ∧ slot ∉ packaging.slots

/-- A value that publishing an asset yields reaches a template: the template has the parameter, and
the manifest names it. -/
structure Publishes (template : Template) (asset : Manifest.Asset) (hash : ContentHash)
    (slot : Asset.Slot) : Prop where
  declared : template.parameters.contains (Naming.assetParameterName hash slot.name) = true
  mapped : asset.parameters.get? slot.name = some (Naming.assetParameterName hash slot.name)

/-! ### What constructs consume -/

/-- What a construct consumes is offered, if what constructs hold is. -/
theorem Tree.OffersAll.consumedBy {tree : Tree} (all : tree.OffersAll) {node : NodeId} :
    ∀ leaf ∈ tree.consumedBy node, tree.Offers leaf := by
  intro leaf consumes
  rw [Tree.consumedBy] at consumes
  cases place : tree.get? node with
  | none =>
    rw [place] at consumes
    cases consumes
  | some found =>
    rw [place, Option.map_some] at consumes
    have offers := all node found place leaf
    split at consumes
    · rename_i resource shape
      rw [Option.some.inj shape] at offers
      exact offers consumes
    · rename_i spec shape
      rw [Option.some.inj shape] at offers
      exact offers consumes
    · rename_i hash shape
      split at consumes
      · rename_i stack top belongs outermost
        split at consumes
        · rw [List.mem_singleton.mp consumes]
          exact ⟨.containerImage,
            Tree.mem_assets_of_get? place (Option.some.inj shape) outermost,
            List.mem_singleton_self _⟩
        · cases consumes
      · cases consumes
    · cases consumes

namespace Prepared

variable {tree : Tree} {bundler : Asset.Bundler} {prepared next : Prepared} {stack top : NodeId}
  {hash : ContentHash} {slot : Asset.Slot} {leaf : Leaf} {assets : Asset.Registry}

/-! ### The assets of a preparation -/

/-- The assets of a preparation are those of an application and behind them those of templates. -/
structure Extends (assets : Asset.Registry) (prepared : Prepared) : Prop where
  once : prepared.assets.Once
  kept : ∀ {top hash record}, assets.find? top hash = some record →
    prepared.assets.find? top hash = some record
  further : ∀ {top hash record}, assets.find? top hash = none →
    prepared.assets.find? top hash = some record → record.packaging = .file

theorem Extends.turn (extension : prepared.Extends assets)
    (turned : embed tree bundler prepared stack = .ok next) : next.Extends assets := by
  obtain ⟨embedded, top, parent, hash, references, wired, turn⟩ := turn_of_embed turned
  constructor
  case once => exact turn.assetsAfter ▸ extension.once.register top _
  case kept =>
    intro other content record known
    rw [turn.assetsAfter]
    exact Asset.Registry.find?_register_of_some (extension.kept known)
  case further =>
    intro other content record absent known
    rw [turn.assetsAfter, Asset.Registry.find?_register] at known
    cases before : prepared.assets.find? other content with
    | some first =>
      rw [before, Option.some_or] at known
      exact Option.some.inj known ▸ extension.further absent before
    | none =>
      rw [before, Option.none_or] at known
      split at known
      · exact Option.some.inj known ▸ rfl
      · cases known

variable {app : Application}

theorem extends_of_prepare {app : Application} {listed : Asset.Source → Prop}
    (accounted : app.Accounted bundler listed) (ready : app.prepare bundler = .ok prepared) :
    prepared.Extends app.assets := by
  obtain ⟨started, start, run, _⟩ := prepare_eq_ok ready
  refine foldlM_invariant (fun _ state => state.Extends app.assets) ?_ ?_ run
  · intro _ nested _ state next _ extension turned
    exact extension.turn turned
  · obtain ⟨_, _, _, _, _, rfl⟩ := start_eq_ok start
    exact ⟨accounted.once, id, fun absent known => nomatch absent.symm.trans known⟩

theorem allPublished_of_prepare (wellFormed : app.tree.WellFormed)
    (ready : app.prepare bundler = .ok prepared) : AllPublished app.tree bundler prepared := by
  obtain ⟨started, start, run, _⟩ := prepare_eq_ok ready
  exact allPublished_of_foldlM wellFormed start run

/-- How an asset is published is decided by the first of its content, and templates are files. -/
theorem Extends.packaging_eq {listed : Asset.Source → Prop}
    (extension : prepared.Extends app.assets) (accounted : app.Accounted bundler listed)
    {record : Asset.Record} (known : prepared.assets.find? top hash = some record) :
    record.packaging = (app.tree.packagingOf? top hash).getD .file := by
  rw [← accounted.first]
  cases first : app.assets.find? top hash with
  | none => exact extension.further first known
  | some early =>
    rw [extension.kept first] at known
    exact congrArg Asset.Record.packaging (Option.some.inj known).symm

/-! ### Where slots are asked for -/

/-- A leaf that is consumed is offered by the tree or locates an embedded template. -/
theorem offers_or_locates_of_consumed (all : tree.OffersAll)
    (consumed : leaf ∈ prepared.consumedIn tree stack) :
    tree.Offers leaf ∨ ∃ nested embedded,
      prepared.rendering.embedded.get? nested = some embedded ∧
        leaf ∈ embedded.location.leaves := by
  rcases List.mem_append.mp consumed with byMember | asked
  · obtain ⟨member, _, consumes⟩ := List.mem_flatMap.mp byMember
    exact .inl (all.consumedBy leaf consumes)
  · obtain ⟨member, _, asks⟩ := List.mem_flatMap.mp asked
    rcases Rendering.consumed_or_located_of_askedBy asks with
      ⟨_, consumes⟩ | ⟨_, embedded, located, inLocation⟩
    · exact .inl (all.consumedBy leaf consumes)
    · exact .inr ⟨member, embedded, located, inLocation⟩

/-- The slots in the address of a template are slots of its file. -/
theorem Published.slot_of_location {nested : NodeId} {embedded : EmbeddedTemplate}
    {content : ContentHash}
    (published : Published bundler assets nested stack embedded content)
    (member : .asset top hash slot ∈ embedded.location.leaves) :
    stack = top ∧ content = hash ∧ slot ∈ Asset.Packaging.file.slots := by
  rw [published.address] at member
  have isAttribute : Definition.assetAttribute? .file ⟨nested, stack, content⟩ "url" =
      some (⟨nested, stack, content⟩ : Asset.Handle).webUrl := rfl
  obtain ⟨itsSlot, hasSlot, same⟩ := Definition.leaves_of_assetAttribute? isAttribute _ member
  cases same
  exact ⟨rfl, rfl, hasSlot⟩

end Prepared

/-! ### Shared identities -/

namespace Definition

/-- The bytes that identify the assets of a definition. -/
def identities (definition : Definition) (surroundings : Surroundings) : List ByteArray :=
  definition.constructs.filterMap (fun item =>
    (surroundings.source? item.content).map (Asset.Source.identity surroundings.system))

/-- The bytes that identify the assets of a definition and the templates of nested stacks. -/
def hashed (definition : Definition) (surroundings : Surroundings) (prepared : Prepared) :
    List ByteArray :=
  definition.identities surroundings ++
    prepared.rendering.embedded.values.map (fun embedded =>
      embedded.template.toJson.compact.toUTF8)

/-- A single file has the very bytes that identify an image, and with them a hash. -/
def Clashes (definition : Definition) (surroundings : Surroundings) (hash : ContentHash) : Prop :=
  ∃ path image, definition.Lists surroundings (.file path) ∧
    definition.Lists surroundings (.image image) ∧
    surroundings.system.readFile path = .ok (image.text surroundings.system).toUTF8 ∧
    hash = contentHash (image.text surroundings.system).toUTF8

variable {definition : Definition} {surroundings : Surroundings} {prepared : Prepared}
  {hash : ContentHash} {source : Asset.Source} {image : Asset.Image}

theorem identity_mem_hashed (lists : definition.Lists surroundings source) :
    source.identity surroundings.system ∈ definition.hashed surroundings prepared := by
  obtain ⟨item, listed, isSource⟩ := lists
  refine List.mem_append_left _ (List.mem_filterMap.mpr ⟨item, listed, ?_⟩)
  rw [isSource]
  rfl

theorem template_mem_hashed {nested : NodeId} {embedded : EmbeddedTemplate}
    (located : prepared.rendering.embedded.get? nested = some embedded) :
    embedded.template.toJson.compact.toUTF8 ∈ definition.hashed surroundings prepared :=
  List.mem_append_right _ (List.mem_map.mpr ⟨embedded,
    List.mem_map.mpr ⟨(nested, embedded), SortedMap.mem_entries.mpr located, rfl⟩, rfl⟩)

variable (apart : NoCollision (definition.hashed surroundings prepared))
  (listsImage : definition.Lists surroundings (.image image))
  (hashedImage : surroundings.bundler (.image image) = .ok hash)
include apart listsImage hashedImage

/-- What is no image shares the hash of one only if it is a single file that clashes with it. -/
theorem clashes_of_sameHash (lists : definition.Lists surroundings source)
    (isFile : source.packaging = .file) (hashedSource : surroundings.bundler source = .ok hash) :
    definition.Clashes surroundings hash := by
  have hashImage := Asset.localBundler_eq_ok hashedImage
  have sameIdentity := apart _ (identity_mem_hashed lists) _ (identity_mem_hashed listsImage)
    ((Asset.localBundler_eq_ok hashedSource).symm.trans hashImage)
  cases source with
  | file path =>
    have isRead := (Asset.fileHash_eq_ok (mapError_eq_ok.mp hashedSource)).1
    rw [sameIdentity] at isRead
    exact ⟨path, image, lists, listsImage, isRead, hashImage⟩
  | directory path exclude =>
    have sameText := String.toByteArray_inj.mp sameIdentity
    exact absurd sameText.symm (image.text_ne_recordText _
      (surroundings.system.areRecords_recordsAt path exclude))
  | inline name contents => exact absurd lists not_lists_inline
  | image _ => cases isFile

/-- No template shares the hash of an image. -/
theorem template_ne_image {nested : NodeId} {embedded : EmbeddedTemplate}
    (located : prepared.rendering.embedded.get? nested = some embedded)
    (hashedTemplate : surroundings.bundler
      (.inline embedded.file embedded.template.toJson.compact.toUTF8) = .ok hash) : False := by
  have sameIdentity := apart _ (template_mem_hashed located) _ (identity_mem_hashed listsImage)
    ((Asset.localBundler_eq_ok hashedTemplate).symm.trans (Asset.localBundler_eq_ok hashedImage))
  exact image.text_ne_object _ _ (String.toByteArray_inj.mp sameIdentity).symm

end Definition

theorem Asset.Source.eq_image_of_packaging {source : Asset.Source}
    (isImage : source.packaging = .containerImage) : ∃ image, source = .image image := by
  cases source with
  | image recipe => exact ⟨recipe, rfl⟩
  | _ => cases isImage

/-! ### What can be published -/

namespace Definition

variable {definition : Definition} {surroundings : Surroundings} {app : Application}
  {prepared : Prepared} {assembly : Assembly} {stack top : NodeId} {hash : ContentHash}
  {slot : Asset.Slot}

/-- A stack has both a file and an image of one hash, as a single file of the definition clashes
with an image. -/
structure ClashesIn (definition : Definition) (surroundings : Surroundings) (tree : Tree)
    (top : NodeId) (hash : ContentHash) : Prop where
  file : ⟨top, hash, .file⟩ ∈ tree.assets
  image : ⟨top, hash, .containerImage⟩ ∈ tree.assets
  clashes : definition.Clashes surroundings hash

/-- Two assets of one hash that are published differently clash. -/
theorem clashesIn_of_mem (accounts : definition.Accounts surroundings app)
    (apart : NoCollision (definition.hashed surroundings prepared))
    (file : ⟨top, hash, .file⟩ ∈ app.tree.assets)
    (image : ⟨top, hash, .containerImage⟩ ∈ app.tree.assets) :
    definition.ClashesIn surroundings app.tree top hash := by
  obtain ⟨fileSource, listsFile, hashedFile, isFile⟩ := accounts.sources _ file
  obtain ⟨imageSource, listsImage, hashedImage, isImage⟩ := accounts.sources _ image
  obtain ⟨recipe, rfl⟩ := Asset.Source.eq_image_of_packaging isImage
  exact ⟨file, image, clashes_of_sameHash apart listsImage hashedImage listsFile isFile hashedFile⟩

/-- A slot that is read is overshadowed only by a clash. -/
theorem clashesIn_of_overshadows (accounts : definition.Accounts surroundings app)
    (ready : app.prepare surroundings.bundler = .ok prepared)
    (apart : NoCollision (definition.hashed surroundings prepared))
    (consumed : .asset top hash slot ∈ prepared.consumedIn app.tree stack)
    (overshadows : app.tree.Overshadows top hash slot) :
    definition.ClashesIn surroundings app.tree top hash := by
  obtain ⟨first, isFirst, noSlot⟩ := overshadows
  have early := Tree.mem_assets_of_packagingOf? isFirst
  rcases Prepared.offers_or_locates_of_consumed accounts.offersAll consumed with
    ⟨packaging, own, hasSlot⟩ | ⟨nested, embedded, located, member⟩
  · cases packaging <;> cases first
    case file.file => exact absurd hasSlot noSlot
    case containerImage.containerImage => exact absurd hasSlot noSlot
    case file.containerImage => exact clashesIn_of_mem accounts apart own early
    case containerImage.file => exact clashesIn_of_mem accounts apart early own
  · obtain ⟨itsTop, content, _, published⟩ :=
      Prepared.allPublished_of_prepare accounts.wellFormed ready located
    obtain ⟨rfl, rfl, hasSlot⟩ := published.slot_of_location member
    cases first with
    | file => exact absurd hasSlot noSlot
    | containerImage =>
      obtain ⟨source, lists, hashed, isImage⟩ := accounts.sources _ early
      obtain ⟨recipe, rfl⟩ := Asset.Source.eq_image_of_packaging isImage
      exact (template_ne_image apart lists hashed located published.hashed).elim

/-- A slot that is read belongs to an asset of its stack, and is one of the slots of that asset
unless it is overshadowed. -/
theorem exists_record_of_consumed (accounts : definition.Accounts surroundings app)
    (ready : app.prepare surroundings.bundler = .ok prepared)
    (consumed : .asset top hash slot ∈ prepared.consumedIn app.tree stack) :
    ∃ record, prepared.assets.find? top hash = some record ∧
      (app.tree.isStack top = true ∧ app.tree.parentStack? top = none) ∧
      (slot ∈ record.packaging.slots ↔ ¬app.tree.Overshadows top hash slot) := by
  have extension := Prepared.extends_of_prepare accounts ready
  -- a slot that no construct offers is one of a template, and these are files
  obtain ⟨record, known, isTop, alone⟩ : ∃ record, prepared.assets.find? top hash = some record ∧
      (app.tree.isStack top = true ∧ app.tree.parentStack? top = none) ∧
      (app.tree.packagingOf? top hash = none → slot ∈ Asset.Packaging.file.slots) := by
    rcases Prepared.offers_or_locates_of_consumed accounts.offersAll consumed with
      ⟨packaging, own, _⟩ | ⟨nested, embedded, located, member⟩
    · obtain ⟨first, isFirst⟩ := Tree.exists_packagingOf? own
      obtain ⟨record, known, _⟩ :=
        Option.map_eq_some_iff.mp ((accounts.first top hash).trans isFirst)
      exact ⟨record, extension.kept known, accounts.wellFormed.outermost_of_mem_assets own,
        fun absent => nomatch isFirst.symm.trans absent⟩
    · obtain ⟨itsTop, content, outermost, published⟩ :=
        Prepared.allPublished_of_prepare accounts.wellFormed ready located
      obtain ⟨rfl, rfl, hasSlot⟩ := published.slot_of_location member
      obtain ⟨record, known⟩ := published.registered
      exact ⟨record, known, accounts.wellFormed.outermost_of_topLevelOf? outermost,
        fun _ => hasSlot⟩
  refine ⟨record, known, isTop, ?_⟩
  rw [extension.packaging_eq accounts known, Tree.Overshadows]
  cases first : app.tree.packagingOf? top hash with
  | none => simpa using alone first
  | some packaging => simp

/-- A stack lists one asset for a hash that it knows, and can publish the slots of this one. -/
theorem exists_artifact_of_record (wellFormed : app.tree.WellFormed)
    (extension : prepared.Extends app.assets)
    (sound : prepared.Sound app.tree (Prepared.nestedStacks app.tree))
    (assembled : prepared.assembly app.tree = .ok assembly)
    (isStack : app.tree.isStack top = true) (notNested : app.tree.isNested top = false)
    {record : Asset.Record} (known : prepared.assets.find? top hash = some record) :
    ∃ template artifact asset,
      assembly.templateOf? (app.tree.stackName top) = some template ∧
      assembly.manifest.artifacts.get? (app.tree.stackName top) = some artifact ∧
      artifact.assets.filter (fun listed => listed.sourceHash = hash) = [asset] ∧
      ∀ slot, Publishes template asset hash slot ↔ slot ∈ record.packaging.slots := by
  have listed := List.mem_of_find?_eq_some known
  have sameHash : record.hash = hash := by simpa using List.find?_some known
  obtain ⟨template, artifact, own, described, describes, rendered⟩ :=
    Assembly.exists_artifact wellFormed sound assembled isStack notNested
  have renders := Rendering.renders_of_template rendered
  refine ⟨template, artifact, Manifest.Asset.ofRecord record, own, described, ?_, fun slot => ?_⟩
  · rw [describes.assets, List.filter_map]
    exact congrArg (List.map Manifest.Asset.ofRecord) (extension.once.filter_eq known)
  · have named : Naming.assetParameterName hash slot.name = record.parameterName slot := by
      rw [← sameHash]
      rfl
    constructor
    · intro publishes
      exact Asset.Record.get?_parameterNames.mp (named ▸ publishes.mapped)
    · intro hasSlot
      constructor
      case mapped => exact named ▸ Asset.Record.get?_parameterNames.mpr hasSlot
      case declared =>
        obtain ⟨parameter, declared⟩ := SortedMap.contains_iff.mp
          (Asset.Registry.contains_parametersOf listed hasSlot)
        rw [named]
        exact SortedMap.contains_iff.mpr ⟨parameter, renders.holds_assetParameter declared⟩

/-- The values of an asset that is read can be published unless an asset of the same stack and
content, but published otherwise, comes before it; and that comes only of a single file that holds
the very bytes that identify an image. -/
theorem consumed_slots_are_published_iff (built : definition.build surroundings = .ok app)
    (ready : app.prepare surroundings.bundler = .ok prepared)
    (assembled : prepared.assembly app.tree = .ok assembly)
    (consumed : .asset top hash slot ∈ prepared.consumedIn app.tree stack) :
    ∃ template artifact asset,
      assembly.templateOf? (app.tree.stackName top) = some template ∧
      assembly.manifest.artifacts.get? (app.tree.stackName top) = some artifact ∧
      artifact.assets.filter (fun listed => listed.sourceHash = hash) = [asset] ∧
      (Publishes template asset hash slot ↔ ¬app.tree.Overshadows top hash slot) ∧
      (NoCollision (definition.hashed surroundings prepared) →
        app.tree.Overshadows top hash slot →
          definition.ClashesIn surroundings app.tree top hash) := by
  have accounts := accounts_build built
  have wellFormed := accounts.wellFormed
  obtain ⟨record, known, ⟨isStack, outermost⟩, hasSlot⟩ :=
    exists_record_of_consumed accounts ready consumed
  obtain ⟨template, artifact, asset, own, described, listed, publishes⟩ :=
    exists_artifact_of_record wellFormed (Prepared.extends_of_prepare accounts ready)
      (Prepared.sound_of_prepare wellFormed ready) assembled isStack
      (wellFormed.isNested_of_outermost isStack outermost) known
  exact ⟨template, artifact, asset, own, described, listed, (publishes slot).trans hasSlot,
    fun apart overshadows => clashesIn_of_overshadows accounts ready apart consumed overshadows⟩

/-! ### A file that looks like an image -/

/-- An image that is built from an empty directory. -/
def lookalikeImage : Asset.Image := ⟨"ctx", ∅, none, none, none⟩

/-- The text that identifies this image. -/
def lookalikeText : String := textHash "" ++ "\n" ++ lookalikeImage.options.compact

def lookalikeHash : ContentHash :=
  "dfe1d9a0a7b265ff2235057818c68b104fe964773dec1c6e05cba36cc023ac94"

/-- The directory of the image, and beside it a file that holds the text. -/
def lookalikeSurroundings : Surroundings :=
  ⟨⟨.directory [("txt", .file lookalikeText.toUTF8), ("ctx", .directory [])]⟩, ""⟩

/-- A stack with the file and the image as its assets, and with a resource that reads the name of
the image. -/
def lookalike : Definition :=
  ⟨[⟨"S", .stack ⟨none, .unspecified⟩⟩, ⟨"S/F", .fileAsset "txt" []⟩,
    ⟨"S/I", .imageAsset lookalikeImage⟩,
    ⟨"S/U", .resource "Custom::R" none
      [("image", .object [("Asset", .string "S/I"), ("Attribute", .string "imageName")])]⟩]⟩

/-- Names without a slash are their only piece. -/
theorem pieces_lookalike : Path.pieces "txt" = ["txt"] ∧ Path.pieces "ctx" = ["ctx"] := by
  constructor <;> rw [Path.pieces, String.splitOn, if_neg (by decide)]
  all_goals
    -- no letter is a slash, and behind the third one the text ends
    iterate 3 rw [String.splitOnAux, if_neg (by decide), if_neg (by decide)]
    rw [String.splitOnAux, if_pos (by decide)]
    decide

theorem find_lookalikeFile :
    lookalikeSurroundings.system.find true "txt" = .ok (.file lookalikeText.toUTF8) := by
  simp [FileSystem.find, FileSystem.locate, pieces_lookalike.1, FileSystem.walk,
    lookalikeSurroundings, Entry.at?, Fields.get?]
  rfl

theorem find_lookalikeContext (follow : Bool) :
    lookalikeSurroundings.system.find follow "ctx" = .ok (.directory []) := by
  simp [FileSystem.find, FileSystem.locate, pieces_lookalike.2, FileSystem.walk,
    lookalikeSurroundings, Entry.at?, Fields.get?]
  rfl

theorem fileSource_lookalike :
    lookalikeSurroundings.fileSource "txt" [] = .file "txt" := by
  have joined : Path.join lookalikeSurroundings.base "txt" = "txt" := by decide +kernel
  simp [Surroundings.fileSource, joined, FileSystem.isDirectory, find_lookalikeFile,
    Entry.isDirectory]

theorem imageSource_lookalike :
    lookalikeSurroundings.imageSource lookalikeImage = .image lookalikeImage := by
  have joined : Path.join lookalikeSurroundings.base "ctx" = "ctx" := by decide +kernel
  simp [Surroundings.imageSource, lookalikeImage, joined]

theorem directoryHash_lookalike :
    lookalikeSurroundings.system.directoryHash "ctx" [] = .ok (textHash "") := by
  have nothing : Entry.digest [] (.directory []) = textHash "" := by
    simp [Entry.digest, Entry.recordsBelow, Entry.digestRecords, Entry.sortRecords, String.join]
  rw [← nothing]
  simp [FileSystem.directoryHash, find_lookalikeContext]
  rfl

theorem textHash_lookalikeText : textHash lookalikeText = lookalikeHash := by decide +kernel

theorem bundler_lookalikeFile :
    lookalikeSurroundings.bundler (.file "txt") = .ok lookalikeHash := by
  rw [← textHash_lookalikeText]
  simp [Surroundings.bundler, Asset.localBundler, FileSystem.fileHash, FileSystem.readFile,
    find_lookalikeFile]
  rfl

theorem bundler_lookalikeImage :
    lookalikeSurroundings.bundler (.image lookalikeImage) = .ok lookalikeHash := by
  rw [← textHash_lookalikeText]
  have context := directoryHash_lookalike
  simp [Surroundings.bundler, Asset.localBundler, lookalikeImage, context]
  rfl

/-- The file and the image are identified by the same bytes. -/
theorem identity_lookalikeFile :
    (Asset.Source.file "txt").identity lookalikeSurroundings.system = lookalikeText.toUTF8 := by
  simp [Asset.Source.identity, FileSystem.readFile, find_lookalikeFile]
  rfl

theorem identity_lookalikeImage :
    (Asset.Source.image lookalikeImage).identity lookalikeSurroundings.system =
      lookalikeText.toUTF8 := by
  have nothing : lookalikeSurroundings.system.recordsAt lookalikeImage.directory [] = [] := by
    simp [FileSystem.recordsAt, lookalikeImage, find_lookalikeContext, Entry.recordsBelow]
  have empty : Entry.recordText [] = "" := by
    simp [Entry.recordText, Entry.sortRecords, String.join]
  rw [Asset.Source.identity, Asset.Image.text, nothing, empty, lookalikeText]

/-- The application, its preparation and its assembly, and what the top-level stack has of the
two assets: one, the file. -/
theorem lookalike_synthesizes :
    ∃ app prepared assembly template artifact,
      lookalike.build lookalikeSurroundings = .ok app ∧
        app.prepare lookalikeSurroundings.bundler = .ok prepared ∧
        prepared.assembly app.tree = .ok assembly ∧
        assembly.templateOf? (app.tree.stackName 1) = some template ∧
        assembly.manifest.artifacts.get? (app.tree.stackName 1) = some artifact ∧
        prepared.rendering.embedded.values = [] ∧
        .asset 1 lookalikeHash .imageName ∈ prepared.consumedIn app.tree 1 ∧
        app.tree.packagingOf? 1 lookalikeHash = some .file ∧
        template.parameters.contains
          (Naming.assetParameterName lookalikeHash Asset.Slot.imageName.name) = false ∧
        artifact.assets.map (fun asset =>
          (asset.sourceHash, asset.parameters.get? Asset.Slot.imageName.name)) =
            [(lookalikeHash, none)] := by
  have seen : (lookalike.build lookalikeSurroundings).toOption.bind (fun app =>
      (app.prepare lookalikeSurroundings.bundler).toOption.bind (fun prepared =>
        (prepared.assembly app.tree).toOption.bind (fun assembly =>
          (assembly.templateOf? (app.tree.stackName 1)).bind (fun template =>
            (assembly.manifest.artifacts.get? (app.tree.stackName 1)).map (fun artifact =>
              decide (prepared.rendering.embedded.values.length = 0 ∧
                .asset 1 lookalikeHash .imageName ∈ prepared.consumedIn app.tree 1 ∧
                app.tree.packagingOf? 1 lookalikeHash = some .file ∧
                template.parameters.contains
                  (Naming.assetParameterName lookalikeHash Asset.Slot.imageName.name) = false ∧
                artifact.assets.map (fun asset =>
                  (asset.sourceHash, asset.parameters.get? Asset.Slot.imageName.name)) =
                    [(lookalikeHash, none)])))))) = some true := by
    simp only [build, lookalike, List.foldlM_cons, List.foldlM_nil, declare, create?,
      fileSource_lookalike, imageSource_lookalike, addAsset,
      Application.addAsset_of_hash bundler_lookalikeFile,
      Application.addAsset_of_hash bundler_lookalikeImage]
    decide +kernel
  obtain ⟨app, built, seen⟩ := Option.bind_eq_some_iff.mp seen
  obtain ⟨prepared, ready, seen⟩ := Option.bind_eq_some_iff.mp seen
  obtain ⟨assembly, assembled, seen⟩ := Option.bind_eq_some_iff.mp seen
  obtain ⟨template, document, seen⟩ := Option.bind_eq_some_iff.mp seen
  obtain ⟨artifact, described, seen⟩ := Option.map_eq_some_iff.mp seen
  obtain ⟨noTemplates, facts⟩ := of_decide_eq_true seen
  exact ⟨app, prepared, assembly, template, artifact, eq_ok_of_toOption built,
    eq_ok_of_toOption ready, eq_ok_of_toOption assembled, document, described,
    List.eq_nil_of_length_eq_zero noTemplates, facts⟩

theorem identities_lookalike : lookalike.identities lookalikeSurroundings =
    [lookalikeText.toUTF8, lookalikeText.toUTF8] := by
  simp [identities, lookalike, Surroundings.source?, fileSource_lookalike, imageSource_lookalike,
    identity_lookalikeFile, identity_lookalikeImage]

/-- No hash is shared by different bytes, those of the directory of the image included. -/
theorem noCollision_lookalike (noTemplates : prepared.rendering.embedded.values = []) :
    NoCollision ("".toUTF8 :: lookalike.hashed lookalikeSurroundings prepared) := by
  have apart : textHash "" ≠ textHash lookalikeText := by
    rw [textHash_lookalikeText]
    decide +kernel
  intro first isFirst second isSecond same
  simp only [hashed, identities_lookalike, noTemplates, List.map_nil, List.append_nil,
    List.mem_cons, List.not_mem_nil, or_false, or_self] at isFirst isSecond
  rcases isFirst with rfl | rfl <;> rcases isSecond with rfl | rfl
  · rfl
  · exact absurd same apart
  · exact absurd same.symm apart
  · rfl

/-- The stack has the file first, so the name of the image cannot be published. -/
theorem lookalike_is_overshadowed :
    ∃ app prepared assembly template artifact asset,
      lookalike.build lookalikeSurroundings = .ok app ∧
        app.prepare lookalikeSurroundings.bundler = .ok prepared ∧
        prepared.assembly app.tree = .ok assembly ∧
        .asset 1 lookalikeHash .imageName ∈ prepared.consumedIn app.tree 1 ∧
        assembly.templateOf? (app.tree.stackName 1) = some template ∧
        assembly.manifest.artifacts.get? (app.tree.stackName 1) = some artifact ∧
        artifact.assets.filter (fun listed => listed.sourceHash = lookalikeHash) = [asset] ∧
        ¬Publishes template asset lookalikeHash .imageName ∧
        lookalike.ClashesIn lookalikeSurroundings app.tree 1 lookalikeHash := by
  obtain ⟨app, prepared, assembly, _, _, built, ready, assembled, _, _, noTemplates, consumed,
    isFile, _⟩ := lookalike_synthesizes
  obtain ⟨template, artifact, asset, own, described, listed, publishes, clash⟩ :=
    consumed_slots_are_published_iff built ready assembled consumed
  have overshadows : app.tree.Overshadows 1 lookalikeHash .imageName :=
    ⟨.file, isFile, by decide⟩
  exact ⟨app, prepared, assembly, template, artifact, asset, built, ready, assembled, consumed,
    own, described, listed, fun published => publishes.mp published overshadows,
    clash ((noCollision_lookalike noTemplates).tail) overshadows⟩

/-- The resource reads a parameter that the template does not declare, and that the manifest does
not name. -/
theorem lookalike_is_not_published :
    ∃ app prepared assembly template artifact,
      lookalike.build lookalikeSurroundings = .ok app ∧
        app.prepare lookalikeSurroundings.bundler = .ok prepared ∧
        prepared.assembly app.tree = .ok assembly ∧
        NoCollision ("".toUTF8 :: lookalike.hashed lookalikeSurroundings prepared) ∧
        .asset 1 lookalikeHash .imageName ∈ prepared.consumedIn app.tree 1 ∧
        assembly.templateOf? (app.tree.stackName 1) = some template ∧
        assembly.manifest.artifacts.get? (app.tree.stackName 1) = some artifact ∧
        template.parameters.contains
          (Naming.assetParameterName lookalikeHash Asset.Slot.imageName.name) = false ∧
        ∀ asset ∈ artifact.assets, asset.parameters.get? Asset.Slot.imageName.name = none := by
  obtain ⟨app, prepared, assembly, template, artifact, built, ready, assembled, document,
    described, noTemplates, consumed, _, undeclared, listed⟩ := lookalike_synthesizes
  refine ⟨app, prepared, assembly, template, artifact, built, ready, assembled,
    noCollision_lookalike noTemplates, consumed, document, described, undeclared, ?_⟩
  intro asset member
  have mapped := List.mem_map_of_mem
    (f := fun asset : Manifest.Asset =>
      (asset.sourceHash, asset.parameters.get? Asset.Slot.imageName.name)) member
  rw [listed, List.mem_singleton] at mapped
  exact congrArg Prod.snd mapped

end Definition

end StackSynth
