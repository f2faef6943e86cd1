/-
This file proves that the manifest and the templates agree about assets. Assets are registered when
constructs declare them and again when templates are embedded, and each top-level stack lists the
first of each content. The parameters that it declares for them are those that the manifest names,
as long as no two texts that names are made of have the same suffix.
-/

import StackSynth.Proofs.Application.Accounting
import StackSynth.Proofs.Asset.Registration
import StackSynth.Proofs.Synthesis.Keeping
import StackSynth.Proofs.Wiring.Orderly

namespace StackSynth

open Outcome

/-! ### What is registered -/

namespace Application

variable {bundler : Asset.Bundler} {app next : Application}

/-- The assets of an application are registered as its constructs declare them: each on its
top-level stack, in the order of their creation. -/
structure Registers (bundler : Asset.Bundler) (app : Application)
    (declared : List (NodeId × Asset.Record)) : Prop where
  constructs : declared.map (fun entry =>
    (⟨entry.1, entry.2.hash, entry.2.packaging⟩ : Tree.Asset)) = app.tree.assets
  sources : ∀ entry ∈ declared, ∃ source, bundler source = .ok entry.2.hash ∧
    entry.2.packaging = source.packaging ∧ entry.2.path = source.localPath
  registry : app.assets = Asset.Registry.empty.registerAll declared

/-- A step declares at most one asset, behind the others. -/
theorem Registers.step {step : BuildStep} {declared : List (NodeId × Asset.Record)}
    (registers : app.Registers bundler declared) (wellFormed : app.tree.WellFormed)
    (done : app.step bundler step = .ok next) :
    ∃ more, next.Registers bundler (declared ++ more) := by
  have unchanged : next.tree.assets = app.tree.assets → next.assets = app.assets →
      next.Registers bundler (declared ++ []) := by
    intro sameTree sameAssets
    rw [List.append_nil]
    exact ⟨registers.constructs.trans sameTree.symm, registers.sources,
      sameAssets.trans registers.registry⟩
  cases change_of_step done with
  | grown plain _ _ added assets =>
    exact ⟨[], unchanged (Tree.assets_add_plain wellFormed added plain) assets⟩
  | replaced place shape tree assets =>
    exact ⟨[], unchanged (tree ▸ Tree.assets_replace wellFormed.ordered place shape) assets⟩
  | @registered _ _ _ top _ source hash belongs outermost hashed added assets =>
    refine ⟨[(top, ⟨hash, source.packaging, source.localPath⟩)], ?_, ?_, ?_⟩
    · rw [Tree.assets_add_asset wellFormed added belongs outermost, List.map_append,
        registers.constructs]
      rfl
    · intro entry member
      rcases List.mem_append.mp member with early | last
      · exact registers.sources entry early
      · cases List.mem_singleton.mp last
        exact ⟨source, hashed, rfl, rfl⟩
    · rw [assets, registers.registry, Asset.Registry.registerAll_append]
      rfl

/-- The registry of every application comes of what its constructs declare. -/
theorem exists_registers (bundler : Asset.Bundler) (steps : List BuildStep) :
    ∃ declared, (build bundler steps).Registers bundler declared := by
  have kept : ∀ (app : Application) (step : BuildStep) (next : Application),
      (app.tree.WellFormed ∧ ∃ declared, app.Registers bundler declared) →
        app.step bundler step = .ok next →
          next.tree.WellFormed ∧ ∃ declared, next.Registers bundler declared := by
    rintro app step next ⟨wellFormed, declared, registers⟩ done
    obtain ⟨more, registersNext⟩ := registers.step wellFormed done
    exact ⟨wellFormed_step wellFormed done, _, registersNext⟩
  have atStart : empty.Registers bundler [] := ⟨rfl, fun _ never => (nomatch never), rfl⟩
  exact (after_induction kept ⟨wellFormed_empty, [], atStart⟩ steps).2

end Application

namespace Prepared

variable {tree : Tree} {bundler : Asset.Bundler} {prepared next : Prepared} {stack nested : NodeId}

/-- The registration of the template of a nested stack: a file on its top-level stack. -/
def templateAsset? (tree : Tree) (bundler : Asset.Bundler) (prepared : Prepared)
    (nested : NodeId) : Option (NodeId × Asset.Record) := do
  let top ← tree.topLevelOf? nested
  let embedded ← prepared.rendering.embedded.get? nested
  let hash ← (bundler (.inline embedded.file embedded.template.toJson.compact.toUTF8)).toOption
  return (top, ⟨hash, .file, embedded.file⟩)

/-- The templates of the nested stacks done so far are registered behind other assets, in the order
in which they are embedded. -/
structure RegistersTemplates (tree : Tree) (bundler : Asset.Bundler) (assets : Asset.Registry)
    (done : List NodeId) (prepared : Prepared) : Prop where
  all : ∀ nested ∈ done, ∃ entry, prepared.templateAsset? tree bundler nested = some entry
  registry : prepared.assets =
    assets.registerAll (done.filterMap (prepared.templateAsset? tree bundler))

section Turns

variable {embedded : EmbeddedTemplate} {top parent : NodeId} {hash : ContentHash}
  {references : List Reference} {wired : List (Reference × Boundary)}
  (turn : Turn tree bundler prepared stack next embedded top parent hash references wired)
include turn

theorem Turn.templateAsset?_self :
    next.templateAsset? tree bundler stack = some (top, ⟨hash, .file, embedded.file⟩) := by
  rw [templateAsset?, turn.outermost, turn.embeddedAfter, SortedMap.get?_insert_self]
  show ((bundler (.inline embedded.file embedded.template.toJson.compact.toUTF8)).toOption.bind
    fun hash => some (top, (⟨hash, .file, embedded.file⟩ : Asset.Record))) = _
  rw [turn.hashed]
  rfl

theorem Turn.templateAsset?_of_ne (apart : nested ≠ stack) :
    next.templateAsset? tree bundler nested = prepared.templateAsset? tree bundler nested := by
  rw [templateAsset?, turn.embeddedAfter, SortedMap.get?_insert_of_ne apart, templateAsset?]

end Turns

/-- A turn registers the template that it embeds. A stack has one turn, so the templates embedded
before stay as they are. -/
theorem RegistersTemplates.turn {assets : Asset.Registry} {done : List NodeId}
    (registers : prepared.RegistersTemplates tree bundler assets done) (isNew : stack ∉ done)
    (turned : embed tree bundler prepared stack = .ok next) :
    next.RegistersTemplates tree bundler assets (done ++ [stack]) := by
  obtain ⟨embedded, top, parent, hash, references, wired, turn⟩ := turn_of_embed turned
  have stays : ∀ nested ∈ done, next.templateAsset? tree bundler nested =
      prepared.templateAsset? tree bundler nested := fun nested isDone =>
    turn.templateAsset?_of_ne fun same => isNew (same ▸ isDone)
  constructor
  case all =>
    intro nested member
    rcases List.mem_append.mp member with early | last
    · rw [stays nested early]
      exact registers.all nested early
    · cases List.mem_singleton.mp last
      exact ⟨_, turn.templateAsset?_self⟩
  case registry =>
    rw [turn.assetsAfter, registers.registry, List.filterMap_append, List.filterMap_congr stays,
      Asset.Registry.registerAll_append, List.filterMap_cons, turn.templateAsset?_self]
    rfl

/-- A preparation registers the templates of all nested stacks. -/
theorem registersTemplates_of_prepare {app : Application} (wellFormed : app.tree.WellFormed)
    (ready : app.prepare bundler = .ok prepared) :
    prepared.RegistersTemplates app.tree bundler app.assets (nestedStacks app.tree) := by
  obtain ⟨started, start, run, _⟩ := prepare_eq_ok ready
  refine foldlM_invariant
    (fun done state => state.RegistersTemplates app.tree bundler app.assets done) ?_ ?_ run
  · intro done stack after state next split registers turned
    have nodup := nodup_nestedStacks wellFormed
    rw [split] at nodup
    exact registers.turn (fun again =>
      (List.nodup_append.mp nodup).2.2 stack again stack List.mem_cons_self rfl) turned
  · obtain ⟨_, _, _, _, _, rfl⟩ := start_eq_ok start
    exact ⟨fun _ never => (nomatch never), rfl⟩

end Prepared

/-! ### What the manifest lists -/

namespace Manifest

/-- A parameter for a slot of an asset: the manifest names it, and it is a text without a default,
described with the hash of the asset. -/
structure Asset.HasParameter (asset : Asset) (slot : StackSynth.Asset.Slot) (name : String)
    (declaration : ParameterDecl) : Prop where
  named : asset.parameters.get? slot.name = some name
  described : declaration = slot.parameter asset.sourceHash
  /-- The description says what the parameter is for and quotes the hash. -/
  quoted : declaration.description =
    some (slot.purpose ++ " \"" ++ asset.sourceHash ++ "\"")
  string : declaration.type = "String"
  absent : declaration.default = none

/-- What a slot declares with the hash of an asset is a parameter for it. -/
theorem Asset.hasParameter {asset : Asset} {slot : StackSynth.Asset.Slot} {name : String}
    (named : asset.parameters.get? slot.name = some name) :
    asset.HasParameter slot name (slot.parameter asset.sourceHash) :=
  ⟨named, rfl, congrArg some (slot.description_eq asset.sourceHash), rfl, rfl⟩

namespace Artifact

variable {artifact : Artifact} {top : NodeId}
  {registrations : List (NodeId × StackSynth.Asset.Record)}

/-- A stack lists what is registered on it: each content once, as it was first registered. -/
structure Lists (artifact : Artifact) (top : NodeId)
    (registrations : List (NodeId × StackSynth.Asset.Record)) : Prop where
  /-- Contents stand in the order of their first registration. -/
  contents : artifact.assets.map Asset.sourceHash =
    ((Asset.Registry.registeredOn top registrations).map Asset.Record.hash).eraseDups
  first : ∀ asset ∈ artifact.assets, ∃ record,
    (Asset.Registry.registeredOn top registrations).find?
        (fun record => record.hash = asset.sourceHash) = some record ∧
      asset = .ofRecord record
  /-- What is registered on other stacks does not matter. -/
  alone : ∀ others, Asset.Registry.registeredOn top others =
      Asset.Registry.registeredOn top registrations →
    artifact.assets = ((Asset.Registry.empty.registerAll others).assetsOf top).map .ofRecord
  /-- A parameter is named for each slot. -/
  slots : ∀ asset ∈ artifact.assets, ∀ {key name}, asset.parameters.get? key = some name ↔
    ∃ slot ∈ asset.packaging.slots, key = slot.name ∧
      name = Naming.assetParameterName asset.sourceHash slot.name

theorem lists_of_registerAll (listed : artifact.assets =
    ((Asset.Registry.empty.registerAll registrations).assetsOf top).map .ofRecord) :
    artifact.Lists top registrations := by
  rw [Asset.Registry.assetsOf_registerAll_empty] at listed
  constructor
  case contents =>
    rw [listed, List.map_map, ← Asset.Record.map_hash_firsts]
    rfl
  case first =>
    intro asset member
    rw [listed] at member
    obtain ⟨record, isFirst, rfl⟩ := List.mem_map.mp member
    exact ⟨record, Asset.Record.find?_eq_some_of_mem_firsts isFirst, rfl⟩
  case alone =>
    intro others same
    rw [listed, Asset.Registry.assetsOf_registerAll_empty, same]
  case slots =>
    intro asset member key name
    rw [listed] at member
    obtain ⟨record, _, rfl⟩ := List.mem_map.mp member
    exact Asset.Record.parameterNames_eq_some

/-- The texts whose suffixes end the names of the parameters for assets. -/
def suffixed (artifact : Artifact) : List String :=
  artifact.assets.flatMap (fun asset =>
    asset.packaging.slots.map (Naming.assetText asset.sourceHash))

/-- The suffixes of these names tell their texts apart. -/
def Separate (artifact : Artifact) : Prop :=
  ∀ text ∈ artifact.suffixed, ∀ other ∈ artifact.suffixed, idSuffix text = idSuffix other →
    text = other

instance (artifact : Artifact) : Decidable artifact.Separate :=
  inferInstanceAs (Decidable (∀ text ∈ artifact.suffixed, ∀ other ∈ artifact.suffixed,
    idSuffix text = idSuffix other → text = other))

/-- No two slots of assets share a parameter. -/
theorem Lists.distinct (lists : artifact.Lists top registrations) (separate : artifact.Separate)
    {asset other : Asset} (listed : asset ∈ artifact.assets) (listedToo : other ∈ artifact.assets)
    {slot last : StackSynth.Asset.Slot} {name : String}
    (named : asset.parameters.get? slot.name = some name)
    (namedToo : other.parameters.get? last.name = some name) : asset = other ∧ slot = last := by
  have textOf : ∀ {asset}, asset ∈ artifact.assets → ∀ {slot : StackSynth.Asset.Slot} {name},
      asset.parameters.get? slot.name = some name →
        Naming.assetText asset.sourceHash slot ∈ artifact.suffixed ∧
          name = Naming.assetParameterName asset.sourceHash slot.name := by
    intro asset listed slot name named
    obtain ⟨its, hasSlot, sameSlot, sameName⟩ := (lists.slots asset listed).mp named
    cases Asset.Slot.name_injective sameSlot
    exact ⟨List.mem_flatMap.mpr ⟨asset, listed, List.mem_map.mpr ⟨slot, hasSlot, rfl⟩⟩, sameName⟩
  obtain ⟨isText, sameName⟩ := textOf listed named
  obtain ⟨isTextToo, sameNameToo⟩ := textOf listedToo namedToo
  have sameSuffix := Naming.suffix_of_assetParameterName (sameName.symm.trans sameNameToo)
  obtain ⟨sameHash, sameSlot⟩ :=
    Naming.assetText_injective (separate _ isText _ isTextToo sameSuffix)
  have nodup : (artifact.assets.map Asset.sourceHash).Nodup := by
    rw [lists.contents]
    exact nodup_eraseDups _
  exact ⟨List.inj_on_of_nodup_map nodup listed listedToo sameHash, sameSlot⟩

end Artifact

end Manifest

/-! ### What the template declares -/

/-- A construct of a stack that is a parameter, under its name in the template. -/
structure Tree.HasParameter (tree : Tree) (stack node : NodeId) (name : String)
    (declaration : ParameterDecl) : Prop where
  place : (tree.get? node).map Node.construct = some (.parameter declaration)
  around : tree.parentStack? node = some stack
  named : tree.logicalId node = .ok name

/-- The parameters of a template are those that the constructs of its stack are and those that the
manifest names for assets, and all of these have names of their own. -/
structure Manifest.Artifact.Agrees (tree : Tree) (artifact : Manifest.Artifact) (top : NodeId)
    (template : Template) : Prop where
  parameters : ∀ {name declaration}, template.parameters.get? name = some declaration ↔
    (∃ node, tree.HasParameter top node name declaration) ∨
      ∃ asset ∈ artifact.assets, ∃ slot, asset.HasParameter slot name declaration
  apart : ∀ {node asset slot name one other}, tree.HasParameter top node name one →
    asset ∈ artifact.assets → ¬asset.HasParameter slot name other
  ofConstructs : ∀ {first second name one other}, tree.HasParameter top first name one →
    tree.HasParameter top second name other → first = second
  ofAssets : ∀ {first second slot last name one other}, first ∈ artifact.assets →
    second ∈ artifact.assets → first.HasParameter slot name one →
    second.HasParameter last name other → first = second ∧ slot = last

namespace Prepared

variable {tree : Tree} {prepared : Prepared} {stack node top : NodeId} {name : String}
  {declaration : ParameterDecl} {artifact : Manifest.Artifact} {template : Template}

/-- A construct declares a parameter exactly if it is one. -/
theorem declares_parameter_iff :
    prepared.Declares tree stack (.construct node) name (.parameter declaration) ↔
      tree.HasParameter stack node name declaration := by
  have plain : ∀ {found}, tree.get? node = some found →
      found.construct = .parameter declaration → tree.declaredName node = tree.logicalId node := by
    intro found place shape
    rw [Tree.declaredName, if_neg]
    rw [Tree.isNested, place]
    simp [shape, Construct.isNestedStack]
  constructor
  · intro declares
    cases declares with
    | @construct _ found _ _ place around named writes =>
      generalize shape : found.construct = construct at writes
      cases writes
      refine ⟨?_, around, (plain place shape).symm.trans named⟩
      rw [place, Option.map_some, shape]
  · rintro ⟨place, around, named⟩
    obtain ⟨found, place, shape⟩ := Option.map_eq_some_iff.mp place
    refine .construct place around ((plain place shape).trans named) ?_
    rw [shape]
    exact .parameter declaration

section Template

variable {registrations : List (NodeId × Asset.Record)}
  (listed : artifact.assets = (prepared.assets.assetsOf top).map .ofRecord)
  (lists : artifact.Lists top registrations) (separate : artifact.Separate)
  (notNested : tree.isNested top = false)
include listed lists separate notNested

/-- A top-level stack declares for its assets what the manifest names. -/
theorem declares_assets_iff :
    prepared.Declares tree top .assets name (.parameter declaration) ↔
      ∃ asset ∈ artifact.assets, ∃ slot, asset.HasParameter slot name declaration := by
  have ofKnown : ∀ {parameter}, (prepared.assets.parametersOf top).get? name = some parameter →
      ∃ asset ∈ artifact.assets, ∃ slot, asset.HasParameter slot name parameter := by
    intro parameter known
    obtain ⟨record, isListed, slot, hasSlot, rfl, rfl⟩ :=
      Asset.Registry.of_get?_parametersOf known
    refine ⟨.ofRecord record, ?_, slot,
      Manifest.Asset.hasParameter (Asset.Record.get?_parameterNames.mpr hasSlot)⟩
    rw [listed]
    exact List.mem_map.mpr ⟨record, isListed, rfl⟩
  constructor
  · intro declares
    cases declares with
    | assets _ known => exact ofKnown known
  · rintro ⟨asset, isListed, slot, hasParameter⟩
    have isRecord := isListed
    rw [listed] at isRecord
    obtain ⟨record, member, rfl⟩ := List.mem_map.mp isRecord
    obtain ⟨its, hasSlot, sameSlot, sameName⟩ :=
      Asset.Record.parameterNames_eq_some.mp hasParameter.named
    obtain ⟨parameter, known⟩ :=
      SortedMap.contains_iff.mp (Asset.Registry.contains_parametersOf member hasSlot)
    rw [← sameName] at known
    obtain ⟨other, isListedToo, last, hasParameterToo⟩ := ofKnown known
    obtain ⟨rfl, rfl⟩ := lists.distinct separate isListed isListedToo hasParameter.named
      hasParameterToo.named
    rw [hasParameter.described, ← hasParameterToo.described]
    exact .assets notNested known

/-- The parameters of a top-level stack agree with its entry in the manifest. -/
theorem agrees_of_presents (presents : prepared.Presents tree top template)
    (noneReceived : ∀ name, (prepared.wiring.stateOf top).received.get? name = none) :
    artifact.Agrees tree top template := by
  have ofAssets : ∀ {name declaration},
      prepared.Declares tree top .assets name (.parameter declaration) ↔
        ∃ asset ∈ artifact.assets, ∃ slot, asset.HasParameter slot name declaration :=
    declares_assets_iff listed lists separate notNested
  have sameSource : ∀ {first second name one other},
      prepared.Declares tree top first name (.parameter one) →
        prepared.Declares tree top second name (.parameter other) → first = second := by
    intro first second name one other declares declaresToo
    have holds := presents.declared declares
    have sameDeclaration : one = other :=
      Option.some.inj (holds.symm.trans (presents.declared declaresToo))
    subst sameDeclaration
    obtain ⟨_, _, unique⟩ := presents.sources holds
    exact (unique first declares).trans (unique second declaresToo).symm
  constructor
  case parameters =>
    intro name declaration
    constructor
    · intro known
      have holds : template.Holds name (.parameter declaration) := known
      obtain ⟨source, declares, _⟩ := presents.sources holds
      cases source with
      | construct node => exact .inl ⟨node, declares_parameter_iff.mp declares⟩
      | received =>
        cases declares with
        | received received => exact nomatch (noneReceived name).symm.trans received
      | shown => nomatch declares
      | assets => exact .inr (ofAssets.mp declares)
    · rintro (⟨node, hasParameter⟩ | ofAsset)
      · exact presents.declared (declares_parameter_iff.mpr hasParameter)
      · exact presents.declared (ofAssets.mpr ofAsset)
  case apart =>
    intro node asset slot name one other ofConstruct isListed ofAsset
    exact nomatch sameSource (declares_parameter_iff.mpr ofConstruct)
      (ofAssets.mpr ⟨asset, isListed, slot, ofAsset⟩)
  case ofConstructs =>
    intro first second name one other hasParameter hasParameterToo
    exact Source.construct.inj (sameSource (declares_parameter_iff.mpr hasParameter)
      (declares_parameter_iff.mpr hasParameterToo))
  case ofAssets =>
    intro first second slot last name one other isListed isListedToo hasParameter hasParameterToo
    exact lists.distinct separate isListed isListedToo hasParameter.named hasParameterToo.named

end Template

end Prepared

namespace Application

/-- The manifest lists for each top-level stack what constructs and embedded templates register on
it, and the template of the stack declares the parameters that are named there. -/
theorem manifest_agrees_with_templates (bundler : Asset.Bundler) (steps : List BuildStep)
    {prepared : Prepared} {assembly : Assembly}
    (ready : (build bundler steps).prepare bundler = .ok prepared)
    (assembled : prepared.assembly (build bundler steps).tree = .ok assembly) :
    ∃ declared, (build bundler steps).Registers bundler declared ∧
      prepared.RegistersTemplates (build bundler steps).tree bundler (build bundler steps).assets
        (Prepared.nestedStacks (build bundler steps).tree) ∧
      ∀ top, (build bundler steps).tree.isStack top = true →
        (build bundler steps).tree.isNested top = false → ∃ artifact template,
          assembly.manifest.artifacts.get? ((build bundler steps).tree.stackName top) =
              some artifact ∧
            assembly.templateOf? ((build bundler steps).tree.stackName top) = some template ∧
            artifact.Lists top (declared ++
              (Prepared.nestedStacks (build bundler steps).tree).filterMap
                (prepared.templateAsset? (build bundler steps).tree bundler)) ∧
            (artifact.Separate → artifact.Agrees (build bundler steps).tree top template) := by
  have wellFormed := wellFormed_build bundler steps
  obtain ⟨declared, registers⟩ := exists_registers bundler steps
  have registersTemplates := Prepared.registersTemplates_of_prepare wellFormed ready
  refine ⟨declared, registers, registersTemplates, fun top isStack notNested => ?_⟩
  obtain ⟨template, artifact, own, described, describes, rendered⟩ :=
    Assembly.exists_artifact wellFormed (Prepared.sound_of_prepare wellFormed ready) assembled
      isStack notNested
  have registered := registersTemplates.registry
  rw [registers.registry, ← Asset.Registry.registerAll_append] at registered
  have lists := Manifest.Artifact.lists_of_registerAll (registered ▸ describes.assets)
  refine ⟨artifact, template, described, own, lists, fun separate => ?_⟩
  have presents : prepared.Presents (build bundler steps).tree top template := by
    refine Prepared.presents_of_template wellFormed isStack ?_
    rw [Prepared.assetParameters, notNested]
    exact rendered
  have befits := (Prepared.orderly_of_prepare wellFormed ready).befits_stateOf isStack
  exact Prepared.agrees_of_presents describes.assets lists separate notNested presents
    (befits.received_eq_none notNested)

/-- Two top-level stacks with a file each. The first one has a parameter too, and its file once more
in a nested stack. -/
def twofold : List BuildStep :=
  [.topLevelStack 0 "S" ⟨none, .unspecified⟩, .parameter 1 "P" .string, .asset 1 "F" (.file "f"),
    .nestedStack 1 "N", .asset 4 "G" (.file "f"), .topLevelStack 0 "T" ⟨none, .unspecified⟩,
    .asset 6 "H" (.file "h")]

theorem twofold_synthesizes :
    ∃ prepared assembly artifact,
      (build Asset.byPath twofold).prepare Asset.byPath = .ok prepared ∧
        prepared.assembly (build Asset.byPath twofold).tree = .ok assembly ∧
        assembly.manifest.artifacts.get? ((build Asset.byPath twofold).tree.stackName 1) =
          some artifact ∧
        artifact.Separate ∧
        artifact.assets.map Manifest.Asset.sourceHash =
          ["f", Prepared.nestedFile (build Asset.byPath twofold).tree 4] ∧
        ∃ asset ∈ artifact.assets, ∃ name,
          asset.sourceHash = "f" ∧ asset.parameters.get? Asset.Slot.bucket.name = some name := by
  have seen : ((build Asset.byPath twofold).prepare Asset.byPath).toOption.bind (fun prepared =>
      (prepared.assembly (build Asset.byPath twofold).tree).toOption.bind (fun assembly =>
        (assembly.manifest.artifacts.get? ((build Asset.byPath twofold).tree.stackName 1)).map
          (fun artifact => decide (artifact.Separate ∧
            artifact.assets.map Manifest.Asset.sourceHash =
              ["f", Prepared.nestedFile (build Asset.byPath twofold).tree 4] ∧
            ∃ asset ∈ artifact.assets, asset.sourceHash = "f" ∧
              (asset.parameters.get? Asset.Slot.bucket.name).isSome = true)))) =
      some true := by
    decide +kernel
  obtain ⟨prepared, ready, seen⟩ := Option.bind_eq_some_iff.mp seen
  obtain ⟨assembly, assembled, seen⟩ := Option.bind_eq_some_iff.mp seen
  obtain ⟨artifact, described, seen⟩ := Option.map_eq_some_iff.mp seen
  obtain ⟨separate, listed, asset, isListed, ofFile, named⟩ := of_decide_eq_true seen
  obtain ⟨name, named⟩ := Option.isSome_iff_exists.mp named
  exact ⟨prepared, assembly, artifact, eq_ok_of_toOption ready, eq_ok_of_toOption assembled,
    described, separate, listed, asset, isListed, name, ofFile, named⟩

/-- The first stack lists its file once and the template of the nested stack behind it, and declares
the parameters of both beside its own. The bucket of the file is described with its hash. -/
theorem twofold_agrees :
    ∃ declared prepared assembly artifact template,
      (build Asset.byPath twofold).Registers Asset.byPath declared ∧
        (build Asset.byPath twofold).prepare Asset.byPath = .ok prepared ∧
        prepared.assembly (build Asset.byPath twofold).tree = .ok assembly ∧
        assembly.manifest.artifacts.get? ((build Asset.byPath twofold).tree.stackName 1) =
          some artifact ∧
        assembly.templateOf? ((build Asset.byPath twofold).tree.stackName 1) = some template ∧
        artifact.assets.map Manifest.Asset.sourceHash =
          ["f", Prepared.nestedFile (build Asset.byPath twofold).tree 4] ∧
        artifact.Lists 1 (declared ++
          (Prepared.nestedStacks (build Asset.byPath twofold).tree).filterMap
            (prepared.templateAsset? (build Asset.byPath twofold).tree Asset.byPath)) ∧
        artifact.Agrees (build Asset.byPath twofold).tree 1 template ∧
        ∃ name, template.parameters.get? name =
          some ⟨"String", none, some "S3 bucket for asset \"f\""⟩ := by
  obtain ⟨prepared, assembly, artifact, ready, assembled, described, separate, listed, asset,
    isListed, name, ofFile, named⟩ := twofold_synthesizes
  obtain ⟨declared, registers, _, all⟩ :=
    manifest_agrees_with_templates Asset.byPath twofold ready assembled
  have isStack : (build Asset.byPath twofold).tree.isStack 1 = true := by decide +kernel
  have notNested : (build Asset.byPath twofold).tree.isNested 1 = false := by decide +kernel
  obtain ⟨other, template, describedToo, own, lists, agrees⟩ := all 1 isStack notNested
  cases Option.some.inj (described.symm.trans describedToo)
  have declares := (agrees separate).parameters.mpr
    (.inr ⟨asset, isListed, .bucket, Manifest.Asset.hasParameter named⟩)
  rw [ofFile] at declares
  exact ⟨declared, prepared, assembly, artifact, template, registers, ready, assembled, described,
    own, listed, lists, agrees separate, name, declares⟩

end Application

end StackSynth
