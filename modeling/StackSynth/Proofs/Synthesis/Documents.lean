/-
This file proves which documents an assembly holds. Every top-level stack is rendered into a
document under its name, and no two of them share a name, since the second would have been refused.
The documents of nested stacks come after these, one for each that is embedded; here nothing is
refused, and a document whose file is taken takes its place.
-/

import StackSynth.Proofs.Naming.Spelling
import StackSynth.Proofs.Synthesis.Preparation
import StackSynth.Synthesis.Assembly

namespace StackSynth

open Outcome

variable {tree : Tree} {prepared : Prepared} {assembly : Assembly} {stack : NodeId}

/-- The template that synthesis renders for a stack. -/
def Prepared.ownTemplate? (tree : Tree) (prepared : Prepared) (stack : NodeId) : Option Template :=
  if tree.isNested stack then
    (prepared.rendering.embedded.get? stack).map EmbeddedTemplate.template
  else
    (prepared.rendering.template tree stack (prepared.assets.parametersOf stack)).toOption

/-- The document that is meant for the template of a stack. -/
def Tree.documentFile (tree : Tree) (stack : NodeId) : String :=
  if tree.isNested stack then Prepared.nestedFile tree stack
  else Assembly.templateFile (tree.stackName stack)

theorem Tree.documentFile_of_nested {tree : Tree} {stack : NodeId}
    (isNested : tree.isNested stack = true) :
    tree.documentFile stack = Prepared.nestedFile tree stack := if_pos isNested

theorem Tree.documentFile_of_not_nested {tree : Tree} {stack : NodeId}
    (notNested : tree.isNested stack = false) :
    tree.documentFile stack = Assembly.templateFile (tree.stackName stack) := by
  rw [documentFile, notNested, if_neg Bool.false_ne_true]

namespace Assembly

/-! ### Top-level stacks -/

/-- What the manifest tells of a top-level stack. -/
structure Describes (tree : Tree) (prepared : Prepared) (stack : NodeId)
    (artifact : Manifest.Artifact) : Prop where
  templateFile : artifact.templateFile = templateFile (tree.stackName stack)
  environment : ∃ environment, tree.environment stack = .ok environment ∧
    artifact.environment = environment.address
  assets : artifact.assets = (prepared.assets.assetsOf stack).map Manifest.Asset.ofRecord
  dependencies : prepared.graph.dependencyNames stack = .ok artifact.dependencies

/-- An assembly of top-level stacks. -/
structure HoldsStacks (tree : Tree) (prepared : Prepared) (nodes : List NodeId)
    (assembly : Assembly) : Prop where
  /-- Every stack is rendered and has its document. -/
  rendered : ∀ stack ∈ nodes, ∃ template,
    prepared.rendering.template tree stack (prepared.assets.parametersOf stack) = .ok template ∧
      assembly.documents.get? (templateFile (tree.stackName stack)) = some template
  only : ∀ {file template}, assembly.documents.get? file = some template →
    ∃ stack ∈ nodes, file = templateFile (tree.stackName stack)
  /-- Every stack is in the manifest under its name. -/
  described : ∀ stack ∈ nodes, ∃ artifact,
    assembly.manifest.artifacts.get? (tree.stackName stack) = some artifact ∧
      Describes tree prepared stack artifact
  onlyStacks : ∀ {name artifact}, assembly.manifest.artifacts.get? name = some artifact →
    ∃ stack ∈ nodes, name = tree.stackName stack
  /-- No two stacks share a name. -/
  named : nodes.Pairwise (fun first second => tree.stackName first ≠ tree.stackName second)

/-- Adding a stack renders it into the document of its name, which no other stack has, and
describes it under that name. -/
theorem addStack_eq_ok {next : Assembly}
    (added : addStack tree prepared assembly stack = .ok next) :
    assembly.manifest.artifacts.contains (tree.stackName stack) = false ∧ ∃ template artifact,
      prepared.rendering.template tree stack (prepared.assets.parametersOf stack) = .ok template ∧
      next.documents = assembly.documents.insert (templateFile (tree.stackName stack)) template ∧
      next.manifest.artifacts =
        assembly.manifest.artifacts.insert (tree.stackName stack) artifact ∧
      Describes tree prepared stack artifact := by
  simp only [addStack, check_eq_ok] at added
  obtain ⟨isFree, added⟩ := added
  obtain ⟨template, rendered, added⟩ := bind_eq_ok.mp added
  obtain ⟨environment, placed, added⟩ := bind_eq_ok.mp added
  obtain ⟨dependencies, depends, same⟩ := bind_eq_ok.mp added
  cases same
  rw [mapError_eq_ok] at placed depends
  exact ⟨by simpa using isFree, template, _, rendered, rfl, rfl,
    { templateFile := rfl, environment := ⟨environment, placed, rfl⟩, assets := rfl,
      dependencies := depends }⟩

theorem templateFile_injective {first second : String}
    (same : templateFile first = templateFile second) : first = second := by
  have sameLetters : first.toList ++ ".template.json".toList =
      second.toList ++ ".template.json".toList := by
    simpa only [templateFile, String.toList_append] using congrArg String.toList same
  exact String.ext_iff.mpr (List.append_cancel_right sameLetters)

theorem HoldsStacks.empty : Assembly.empty.HoldsStacks tree prepared [] where
  rendered _ never := nomatch never
  only never := nomatch never
  described _ never := nomatch never
  onlyStacks never := nomatch never
  named := .nil

/-- One more stack has a name of its own, and takes nothing from those before it. -/
theorem HoldsStacks.step {nodes : List NodeId} {next : Assembly}
    (holds : assembly.HoldsStacks tree prepared nodes)
    (added : addStack tree prepared assembly stack = .ok next) :
    next.HoldsStacks tree prepared (nodes ++ [stack]) := by
  obtain ⟨isFree, template, artifact, rendered, documents, artifacts, describes⟩ :=
    addStack_eq_ok added
  have fresh : ∀ other ∈ nodes, tree.stackName other ≠ tree.stackName stack := by
    intro other member sameName
    obtain ⟨its, taken, _⟩ := holds.described other member
    rw [sameName] at taken
    rw [SortedMap.contains_iff.mpr ⟨its, taken⟩] at isFree
    cases isFree
  have newest : stack ∈ nodes ++ [stack] := List.mem_append_right _ List.mem_cons_self
  constructor
  case rendered =>
    refine List.forall_mem_append.mpr ⟨fun other early => ?_, List.forall_mem_singleton.mpr ?_⟩
    · obtain ⟨its, renderedIts, document⟩ := holds.rendered other early
      refine ⟨its, renderedIts, ?_⟩
      rw [documents, SortedMap.get?_insert_of_ne
        (fun same => fresh other early (templateFile_injective same)), document]
    · exact ⟨template, rendered, documents ▸ SortedMap.get?_insert_self _ _ _⟩
  case only =>
    intro file found document
    rw [documents] at document
    by_cases here : file = templateFile (tree.stackName stack)
    · exact ⟨stack, newest, here⟩
    · rw [SortedMap.get?_insert_of_ne here] at document
      obtain ⟨other, member, same⟩ := holds.only document
      exact ⟨other, List.mem_append_left _ member, same⟩
  case described =>
    refine List.forall_mem_append.mpr ⟨fun other early => ?_, List.forall_mem_singleton.mpr ?_⟩
    · obtain ⟨its, known, describesIt⟩ := holds.described other early
      refine ⟨its, ?_, describesIt⟩
      rw [artifacts, SortedMap.get?_insert_of_ne (fresh other early), known]
    · exact ⟨artifact, artifacts ▸ SortedMap.get?_insert_self _ _ _, describes⟩
  case onlyStacks =>
    intro name found known
    rw [artifacts] at known
    by_cases here : name = tree.stackName stack
    · exact ⟨stack, newest, here⟩
    · rw [SortedMap.get?_insert_of_ne here] at known
      obtain ⟨other, member, same⟩ := holds.onlyStacks known
      exact ⟨other, List.mem_append_left _ member, same⟩
  case named =>
    refine List.pairwise_append.mpr ⟨holds.named, List.pairwise_singleton _ _, ?_⟩
    intro other member last atLast
    cases List.mem_singleton.mp atLast
    exact fresh other member

theorem holdsStacks_of_foldlM {nodes : List NodeId}
    (run : nodes.foldlM (addStack tree prepared) Assembly.empty = .ok assembly) :
    assembly.HoldsStacks tree prepared nodes :=
  foldlM_invariant (fun before state => state.HoldsStacks tree prepared before)
    (fun _ _ _ _ _ _ holds added => holds.step added) .empty run

/-- The documents of nested stacks leave the manifest alone. -/
theorem manifest_foldl_addEmbedded (embeddeds : List EmbeddedTemplate) :
    ∀ assembly : Assembly, (embeddeds.foldl addEmbedded assembly).manifest = assembly.manifest := by
  induction embeddeds with
  | nil => exact fun _ => rfl
  | cons first rest inductionHypothesis => exact fun assembly => inductionHypothesis _

/-- The manifest of a synthesized application describes the top-level stacks and nothing else. -/
theorem artifacts_of_assembly (wellFormed : tree.WellFormed)
    (assembled : prepared.assembly tree = .ok assembly) :
    (∀ stack, tree.isStack stack = true → tree.isNested stack = false → ∃ artifact,
      assembly.manifest.artifacts.get? (tree.stackName stack) = some artifact ∧
        Describes tree prepared stack artifact) ∧
    ∀ name artifact, assembly.manifest.artifacts.get? name = some artifact → ∃ stack,
      tree.isStack stack = true ∧ tree.isNested stack = false ∧ name = tree.stackName stack ∧
        Describes tree prepared stack artifact := by
  obtain ⟨top, run, same⟩ := bind_eq_ok.mp assembled
  cases same
  have holds := holdsStacks_of_foldlM run
  rw [manifest_foldl_addEmbedded]
  constructor
  · intro stack isStack notNested
    exact holds.described stack (wellFormed.mem_topLevelStacks.mpr ⟨isStack, notNested⟩)
  · intro name artifact known
    obtain ⟨stack, listed, rfl⟩ := holds.onlyStacks known
    obtain ⟨isStack, notNested⟩ := wellFormed.mem_topLevelStacks.mp listed
    obtain ⟨its, knownIt, describes⟩ := holds.described stack listed
    rw [known] at knownIt
    cases knownIt
    exact ⟨stack, isStack, notNested, rfl, describes⟩

end Assembly

/-- No two top-level stacks of a synthesized application share a name. -/
theorem Assembly.stackName_injective (wellFormed : tree.WellFormed)
    (assembled : prepared.assembly tree = .ok assembly) {first second : NodeId}
    (isStackFirst : tree.isStack first = true) (notNestedFirst : tree.isNested first = false)
    (isStackSecond : tree.isStack second = true) (notNestedSecond : tree.isNested second = false)
    (sameName : tree.stackName first = tree.stackName second) : first = second := by
  obtain ⟨top, run, _⟩ := bind_eq_ok.mp assembled
  have named := (holdsStacks_of_foldlM run).named
  by_contra different
  have symmetric : Std.Symm (fun one two : NodeId => tree.stackName one ≠ tree.stackName two) :=
    ⟨fun _ _ => Ne.symm⟩
  exact named.forall (wellFormed.mem_topLevelStacks.mpr ⟨isStackFirst, notNestedFirst⟩)
    (wellFormed.mem_topLevelStacks.mpr ⟨isStackSecond, notNestedSecond⟩) different sameName

/-- What top-level stacks export under one name is one output of one stack. -/
theorem Assembly.exportName_injective (wellFormed : tree.WellFormed)
    (assembled : prepared.assembly tree = .ok assembly) {first second : NodeId}
    (isStackFirst : tree.isStack first = true) (notNestedFirst : tree.isNested first = false)
    (isStackSecond : tree.isStack second = true) (notNestedSecond : tree.isNested second = false)
    {output last : String} (isOutput : Naming.IsName output)
    (sameName : Naming.exportName (tree.stackName first) output =
      Naming.exportName (tree.stackName second) last) : first = second ∧ output = last := by
  obtain ⟨sameStack, sameOutput⟩ := Naming.exportName_injective
    (wellFormed.isStackName_stackName isStackFirst notNestedFirst) isOutput sameName
  exact ⟨stackName_injective wellFormed assembled isStackFirst notNestedFirst isStackSecond
    notNestedSecond sameStack, sameOutput⟩

/-- The parameters that a stack declares for assets: nested stacks leave theirs to the top-level
stack. -/
def Prepared.assetParameters (tree : Tree) (prepared : Prepared) (stack : NodeId) :
    SortedMap String ParameterDecl :=
  if tree.isNested stack then ∅ else prepared.assets.parametersOf stack

/-- Every stack of a synthesized application has a template of its own, which is what rendering it
at the end gives. -/
theorem Prepared.Sound.ownTemplate_rendered {done : List NodeId}
    (sound : prepared.Sound tree done)
    (all : ∀ nested, tree.isNested nested = true → nested ∈ done) (wellFormed : tree.WellFormed)
    (assembled : prepared.assembly tree = .ok assembly) (isStack : tree.isStack stack = true) :
    ∃ template, prepared.ownTemplate? tree stack = some template ∧
      prepared.rendering.template tree stack (prepared.assetParameters tree stack) =
        .ok template := by
  cases isNested : tree.isNested stack with
  | true =>
    obtain ⟨embedded, top, parent, embeds⟩ := sound.embeds stack (all stack isNested)
    refine ⟨embedded.template, ?_, ?_⟩
    · rw [Prepared.ownTemplate?, if_pos isNested, embeds.located]
      rfl
    · rw [Prepared.assetParameters, if_pos isNested]
      exact embeds.template
  | false =>
    obtain ⟨top, run, _⟩ := bind_eq_ok.mp assembled
    have listed := wellFormed.mem_topLevelStacks.mpr ⟨isStack, isNested⟩
    obtain ⟨template, rendered, _⟩ := (Assembly.holdsStacks_of_foldlM run).rendered stack listed
    refine ⟨template, ?_, ?_⟩
    · rw [Prepared.ownTemplate?, isNested, rendered]
      rfl
    · rw [Prepared.assetParameters, isNested]
      exact rendered

/-- What the template of a stack holds comes from what wiring has left at the end. -/
theorem Prepared.Sound.exists_ownTemplate {done : List NodeId}
    (sound : prepared.Sound tree done) (wellFormed : tree.WellFormed)
    (all : ∀ nested, tree.isNested nested = true → nested ∈ done)
    (assembled : prepared.assembly tree = .ok assembly) (isStack : tree.isStack stack = true) :
    ∃ template assetParameters, prepared.ownTemplate? tree stack = some template ∧
      prepared.rendering.Renders tree stack assetParameters template := by
  obtain ⟨template, own, rendered⟩ := sound.ownTemplate_rendered all wellFormed assembled isStack
  exact ⟨template, _, own, Rendering.renders_of_template rendered⟩

/-- A stack of a prepared and assembled application has its own template. -/
theorem Prepared.ownTemplate_of_prepare {app : Application} {bundler : Asset.Bundler}
    (wellFormed : app.tree.WellFormed) (ready : app.prepare bundler = .ok prepared)
    (assembled : prepared.assembly app.tree = .ok assembly)
    (isStack : app.tree.isStack stack = true) :
    ∃ template, prepared.ownTemplate? app.tree stack = some template ∧
      prepared.rendering.template app.tree stack (prepared.assetParameters app.tree stack) =
        .ok template :=
  (sound_of_prepare wellFormed ready).ownTemplate_rendered
    (fun _ isNested => (mem_nestedStacks wellFormed).mpr isNested) wellFormed assembled isStack

namespace Application

theorem exists_of_synthesize {app : Application} {bundler : Asset.Bundler}
    (synthesized : app.synthesize bundler = .ok assembly) :
    ∃ prepared, app.prepare bundler = .ok prepared ∧ prepared.assembly app.tree = .ok assembly :=
  bind_eq_ok.mp synthesized

theorem relay_synthesizes :
    ∃ prepared assembly, (build Asset.byPath relay).prepare Asset.byPath = .ok prepared ∧
      prepared.assembly (build Asset.byPath relay).tree = .ok assembly := by
  have synthesizes : ((build Asset.byPath relay).synthesize Asset.byPath).isOk = true := by
    decide +kernel
  obtain ⟨assembly, synthesized⟩ := exists_of_isOk synthesizes
  obtain ⟨prepared, ready, assembled⟩ := exists_of_synthesize synthesized
  exact ⟨prepared, assembly, ready, assembled⟩

end Application

end StackSynth
