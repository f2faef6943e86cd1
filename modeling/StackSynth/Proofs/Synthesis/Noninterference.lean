/-
This file states what an addition reaches. When a resource that reads nothing is added to an
application, only the stacks around it can look different afterwards: every other stack is rendered
into the same template, and every other top-level stack is described by the same entry of the
manifest. What is found in the assembly under the file of another stack is the same, too, unless
nested stacks share that file and the last of them, which fills it, is around the addition.
-/

import StackSynth.Proofs.Synthesis.Keeping
import StackSynth.Proofs.Synthesis.Locality
import StackSynth.Proofs.Synthesis.Presence

namespace StackSynth

open Outcome

variable {tree : Tree} {prepared other : Prepared} {assembly last : Assembly} {scope stack : NodeId}
  {id : String} {construct : Construct}

/-! ### Which document a file holds -/

/-- The stack that fills the file of a stack: the youngest one that has the file. -/
structure Tree.Fills (tree : Tree) (stack holder : NodeId) : Prop where
  isStack : tree.isStack holder = true
  sameFile : tree.documentFile holder = tree.documentFile stack
  youngest : ∀ older, tree.isStack older = true →
    tree.documentFile older = tree.documentFile stack → older ≤ holder

/-- One stack fills a file, in all trees with the same stacks and files. -/
theorem Tree.Fills.unique {grown : Tree} {holder holderToo : NodeId}
    (fills : tree.Fills stack holder) (fillsToo : grown.Fills stack holderToo)
    (sameStacks : ∀ stack, grown.isStack stack = tree.isStack stack)
    (sameFiles : ∀ stack, tree.isStack stack = true →
      grown.documentFile stack = tree.documentFile stack)
    (isStack : tree.isStack stack = true) : holderToo = holder := by
  have isStackToo : tree.isStack holderToo = true := sameStacks holderToo ▸ fillsToo.isStack
  refine Nat.le_antisymm (fills.youngest holderToo isStackToo ?_)
    (fillsToo.youngest holder ((sameStacks holder).trans fills.isStack) ?_)
  · rw [← sameFiles holderToo isStackToo, fillsToo.sameFile, sameFiles stack isStack]
  · rw [sameFiles holder fills.isStack, fills.sameFile, sameFiles stack isStack]

namespace Assembly

/-- What is added last to a file is what it holds. -/
theorem last_of_foldl_addEmbedded {file : String} {template : Template} :
    ∀ {entries : List (NodeId × EmbeddedTemplate)} {assembly : Assembly},
      entries.Pairwise (fun first second => compare first.1 second.1 = .lt) →
      ((entries.map (·.2)).foldl addEmbedded assembly).documents.get? file = some template →
      (∃ entry ∈ entries, entry.2.file = file) →
      ∃ entry ∈ entries, entry.2.file = file ∧ entry.2.template = template ∧
        ∀ early ∈ entries, early.2.file = file → early.1 ≤ entry.1 := by
  intro entries
  induction entries with
  | nil => exact fun _ _ ⟨_, never, _⟩ => nomatch never
  | cons first rest inductionHypothesis =>
    intro assembly ascends found known
    obtain ⟨below, ascendsRest⟩ := List.pairwise_cons.mp ascends
    rw [List.map_cons, List.foldl_cons] at found
    by_cases later : ∃ entry ∈ rest, entry.2.file = file
    · obtain ⟨entry, member, atFile, same, youngest⟩ := inductionHypothesis ascendsRest found later
      refine ⟨entry, List.mem_cons_of_mem _ member, atFile, same, fun early isEarly atSame => ?_⟩
      rcases List.mem_cons.mp isEarly with rfl | inRest
      · exact Nat.le_of_lt (Nat.compare_eq_lt.mp (below entry member))
      · exact youngest early inRest atSame
    · obtain ⟨entry, member, atFile⟩ := known
      have isFirst : entry = first := (List.mem_cons.mp member).resolve_right
        fun inRest => later ⟨entry, inRest, atFile⟩
      subst isFirst
      refine ⟨entry, List.mem_cons_self, atFile, ?_, fun early isEarly atSame => ?_⟩
      · rcases of_foldl_addEmbedded found with ⟨before, _⟩ | ⟨embedded, inRest, atSame, _⟩
        · rw [← atFile] at before
          exact Option.some.inj ((SortedMap.get?_insert_self _ _ _).symm.trans before)
        · obtain ⟨early, isEarly, rfl⟩ := List.mem_map.mp inRest
          exact absurd ⟨early, isEarly, atSame⟩ later
      · rcases List.mem_cons.mp isEarly with rfl | inRest
        · exact Nat.le_refl _
        · exact absurd ⟨early, inRest, atSame⟩ later

/-- The document in the file of a stack is the template of the stack that fills it. -/
theorem filled_of_prepare {app : Application} {bundler : Asset.Bundler}
    (wellFormed : app.tree.WellFormed) (ready : app.prepare bundler = .ok prepared)
    (assembled : prepared.assembly app.tree = .ok assembly)
    (isStack : app.tree.isStack stack = true) :
    ∃ holder template, app.tree.Fills stack holder ∧
      (app.tree.isNested stack = false → holder = stack) ∧
      prepared.ownTemplate? app.tree holder = some template ∧
      assembly.documents.get? (app.tree.documentFile stack) = some template := by
  have documents := documents_of_prepare wellFormed ready assembled
  cases isNested : app.tree.isNested stack with
  | false =>
    obtain ⟨template, own, document⟩ := documents.topLevel stack isStack isNested
    refine ⟨stack, template, ⟨isStack, rfl, fun older isStackOlder sameFile => ?_⟩, fun _ => rfl,
      own, document⟩
    have sameKind := wellFormed.isNested_of_sameFile isStackOlder isStack sameFile
    exact Nat.le_of_eq (documents.named older stack isStackOlder (sameKind.trans isNested) isStack
      isNested sameFile)
  | true =>
    have sound := Prepared.sound_of_prepare wellFormed ready
    obtain ⟨_, template, _, _, _, document⟩ := documents.nested stack isNested
    have entryOf : ∀ {nested}, app.tree.isNested nested = true → ∃ embedded,
        (nested, embedded) ∈ prepared.rendering.embedded.entries ∧
          embedded.file = app.tree.documentFile nested ∧
          prepared.ownTemplate? app.tree nested = some embedded.template := by
      intro nested isNested
      obtain ⟨embedded, _, _, embeds⟩ :=
        sound.embeds nested ((Prepared.mem_nestedStacks wellFormed).mpr isNested)
      refine ⟨embedded, SortedMap.mem_entries.mpr embeds.located, ?_, ?_⟩
      · rw [Tree.documentFile, if_pos isNested, embeds.file]
      · rw [Prepared.ownTemplate?, if_pos isNested, embeds.located]
        rfl
    obtain ⟨top, _, same⟩ := bind_eq_ok.mp assembled
    cases same
    obtain ⟨embedded, listed, atFile, _⟩ := entryOf isNested
    obtain ⟨⟨holder, last⟩, member, atSame, rfl, youngest⟩ := last_of_foldl_addEmbedded
      prepared.rendering.embedded.ascending document ⟨_, listed, atFile⟩
    have located := SortedMap.mem_entries.mp member
    have isNestedHolder : app.tree.isNested holder = true :=
      (Prepared.mem_nestedStacks wellFormed).mp (sound.only located)
    obtain ⟨sameEmbedded, listedHolder, fileHolder, own⟩ := entryOf isNestedHolder
    cases Option.some.inj (located.symm.trans (SortedMap.mem_entries.mp listedHolder))
    refine ⟨holder, last.template, ⟨Tree.isStack_of_isNested isNestedHolder,
      fileHolder.symm.trans atSame, fun older isStackOlder sameFile => ?_⟩,
      fun notNested => absurd notNested (by decide), own, document⟩
    have sameKind := wellFormed.isNested_of_sameFile isStackOlder isStack sameFile
    obtain ⟨its, listedOlder, fileOlder, _⟩ := entryOf (sameKind.trans isNested)
    exact youngest (older, its) listedOlder (fileOlder.trans sameFile)

end Assembly

/-! ### What stays the same -/

/-- A stack has the same file in two assemblies, of a tree and of a grown one, and it holds the same
document. -/
def SameDocument (tree grown : Tree) (assembly last : Assembly) (stack : NodeId) : Prop :=
  grown.documentFile stack = tree.documentFile stack ∧
    ∃ template, assembly.documents.get? (tree.documentFile stack) = some template ∧
      last.documents.get? (tree.documentFile stack) = some template

/-- What two assemblies, of a tree and of a grown one, have in common outside of the stacks around
the addition. -/
structure Confined (tree grown : Tree) (around : NodeId) (prepared other : Prepared)
    (assembly last : Assembly) : Prop where
  /-- There are the same stacks. -/
  sameStacks : ∀ stack, grown.isStack stack = tree.isStack stack
  /-- A stack that is not around the addition is rendered into the same template. -/
  templates : ∀ stack, tree.isStack stack = true → stack ∉ tree.stackChain around → ∃ template,
    prepared.ownTemplate? tree stack = some template ∧
      other.ownTemplate? grown stack = some template
  /-- The stack of the addition is not. -/
  changed : prepared.ownTemplate? tree around ≠ other.ownTemplate? grown around
  /-- The file of a stack holds the same document exactly if the stack that fills it is rendered into
  the same template. A top-level stack fills its file, and so does a nested one that shares its file
  with no other. -/
  documents : ∀ stack, tree.isStack stack = true → ∃ holder, tree.Fills stack holder ∧
    (tree.isNested stack = false → holder = stack) ∧
    (SameDocument tree grown assembly last stack ↔
      prepared.ownTemplate? tree holder = other.ownTemplate? grown holder)
  /-- A top-level stack other than the one around the addition has the same entry in the manifest,
  under the same name. -/
  artifacts : ∀ stack, tree.isStack stack = true → tree.isNested stack = false →
    tree.topLevelOf? around ≠ some stack →
    grown.stackName stack = tree.stackName stack ∧ ∃ artifact,
      assembly.manifest.artifacts.get? (tree.stackName stack) = some artifact ∧
        last.manifest.artifacts.get? (tree.stackName stack) = some artifact

/-- A stack is described by nothing but its name, its environment, its assets and what it depends
on. -/
theorem Assembly.Describes.unique {grown : Tree} {first second : Manifest.Artifact}
    (describes : Describes tree prepared stack first)
    (describesToo : Describes grown other stack second)
    (name : grown.stackName stack = tree.stackName stack)
    (environment : grown.environment stack = tree.environment stack)
    (assets : prepared.assets.assetsOf stack = other.assets.assetsOf stack)
    (graph : prepared.graph = other.graph) : second = first := by
  obtain ⟨place, located, address⟩ := describes.environment
  obtain ⟨placeToo, locatedToo, addressToo⟩ := describesToo.environment
  rw [environment, located] at locatedToo
  cases locatedToo
  have sameFile : second.templateFile = first.templateFile := by
    rw [describesToo.templateFile, name, ← describes.templateFile]
  have sameEnvironment : second.environment = first.environment := addressToo.trans address.symm
  have sameAssets : second.assets = first.assets := by
    rw [describesToo.assets, ← assets, ← describes.assets]
  have sameDependencies : second.dependencies = first.dependencies := by
    have dependencies := describesToo.dependencies
    rw [← graph, describes.dependencies] at dependencies
    exact (Except.ok.inj dependencies).symm
  cases first
  cases second
  cases sameFile
  cases sameEnvironment
  cases sameAssets
  cases sameDependencies
  rfl

/-- The stack around a new resource has one more resource. -/
theorem Tree.WellFormed.deployed_withNew {around : NodeId} (wellFormed : tree.WellFormed)
    (admits : tree.Admits scope id construct) (inside : tree.stackOf? scope = some around)
    (deployed : construct.isDeployed = true) :
    (tree.preorder.filter (fun node =>
        tree.isDeployed node && tree.parentStack? node = some around)).length <
      ((tree.withNew scope id construct).preorder.filter (fun node =>
        (tree.withNew scope id construct).isDeployed node &&
          (tree.withNew scope id construct).parentStack? node = some around)).length := by
  have member : tree.size ∈ (tree.withNew scope id construct).preorder := by
    rw [(wellFormed.withNew admits).mem_preorder, size_withNew]
    exact Nat.lt_succ_self _
  have isNew : (tree.withNew scope id construct).isDeployed tree.size = true ∧
      (tree.withNew scope id construct).parentStack? tree.size = some around := by
    refine ⟨?_, (parentStack?_withNew wellFormed admits.scope).trans inside⟩
    rw [isDeployed, get?_withNew, if_pos rfl]
    exact deployed
  have others : ((tree.withNew scope id construct).preorder.filter (fun node =>
      (tree.withNew scope id construct).isDeployed node &&
        (tree.withNew scope id construct).parentStack? node = some around)).filter
        (· ≠ tree.size) =
      tree.preorder.filter (fun node =>
        tree.isDeployed node && tree.parentStack? node = some around) := by
    rw [List.filter_comm, preorder_withNew wellFormed admits]
    refine List.filter_congr fun node isOld => ?_
    have older := wellFormed.mem_preorder.mp isOld
    rw [isDeployed, isDeployed, get?_withNew_of_lt older,
      (alikeBelow_withNew tree scope id construct).parentStack? wellFormed.ordered older]
  rw [← others]
  refine List.length_filter_lt_length_iff_exists.mpr ⟨tree.size, ?_, by simp⟩
  exact List.mem_filter.mpr ⟨member, by simp [isNew]⟩

section Confined

variable {app grown : Application} {around : NodeId} {bundler : Asset.Bundler}
  (wellFormed : app.tree.WellFormed) (admits : app.tree.Admits scope id construct)
  (noStack : construct.isStack = false) (inside : app.tree.stackOf? scope = some around)
  (grew : grown.tree = app.tree.withNew scope id construct)
  (ready : app.prepare bundler = .ok prepared) (readyToo : grown.prepare bundler = .ok other)
  (assembled : prepared.assembly app.tree = .ok assembly)
  (assembledToo : other.assembly grown.tree = .ok last)
include wellFormed noStack grew

/-- The grown tree has the same documents for stacks. -/
theorem documentFile_withNew (isStack : app.tree.isStack stack = true) :
    grown.tree.documentFile stack = app.tree.documentFile stack := by
  have within := Tree.lt_of_isStack isStack
  rw [grew, Tree.documentFile, Tree.documentFile, Tree.isNested_withNew noStack,
    Prepared.nestedFile, Prepared.nestedFile, Tree.uniqueId_withNew wellFormed.ordered within,
    ← (Tree.alikeBelow_withNew app.tree scope id construct).stackName wellFormed.ordered within]

include admits inside assembled ready

/-- A stack that is not around the addition is rendered into the same template. -/
theorem ownTemplate_withNew
    (agree : ∀ place ∉ app.tree.stackChain around, Prepared.Agree place prepared other)
    (isStack : app.tree.isStack stack = true) (apart : stack ∉ app.tree.stackChain around) :
    ∃ template, prepared.ownTemplate? app.tree stack = some template ∧
      other.ownTemplate? grown.tree stack = some template := by
  obtain ⟨template, own, rendered⟩ :=
    Prepared.ownTemplate_of_prepare wellFormed ready assembled isStack
  refine ⟨template, own, ?_⟩
  have isStackAround := Tree.isStack_of_stackOf? inside
  have elsewhere : app.tree.stackOf? scope ≠ some stack := by
    rw [inside]
    rintro ⟨⟩
    exact apart (List.mem_of_head? (wellFormed.stackOf?_stack isStackAround))
  rw [grew, Prepared.ownTemplate?, Tree.isNested_withNew noStack]
  rw [Prepared.ownTemplate?] at own
  rw [Prepared.assetParameters] at rendered
  cases isNested : app.tree.isNested stack with
  | true =>
    rw [isNested] at own
    rw [← (agree stack apart).embedded]
    exact own
  | false =>
    have sameParameters : other.assets.parametersOf stack = prepared.assets.parametersOf stack := by
      rw [Asset.Registry.parametersOf, Asset.Registry.parametersOf, (agree stack apart).assets]
    rw [isNested] at rendered
    have untouched := Prepared.untouched_of_agree wellFormed isStackAround agree apart
    rw [(untouched.agree wellFormed isStack).template] at rendered
    have renderedToo := Rendering.template_withNew wellFormed admits noStack isStack elsewhere
      rendered
    rw [sameParameters]
    exact congrArg Except.toOption renderedToo

include readyToo assembledToo

/-- The stack of an added resource is rendered into a template with one more resource. -/
theorem ownTemplate_around_withNew (deployed : construct.isDeployed = true) :
    prepared.ownTemplate? app.tree around ≠ other.ownTemplate? grown.tree around := by
  have grownWellFormed : grown.tree.WellFormed := grew ▸ wellFormed.withNew admits
  have isStack := Tree.isStack_of_stackOf? inside
  have isStackToo : grown.tree.isStack around = true :=
    grew ▸ (Tree.isStack_withNew noStack around).trans isStack
  obtain ⟨template, own, rendered⟩ :=
    Prepared.ownTemplate_of_prepare wellFormed ready assembled isStack
  obtain ⟨templateToo, ownToo, renderedToo⟩ :=
    Prepared.ownTemplate_of_prepare grownWellFormed readyToo assembledToo isStackToo
  have count := (Prepared.presents_of_template wellFormed isStack rendered).ordered.length_eq
  have countToo :=
    (Prepared.presents_of_template grownWellFormed isStackToo renderedToo).ordered.length_eq
  have fewer := wellFormed.deployed_withNew admits inside deployed
  rw [own, ownToo]
  rintro same
  cases Option.some.inj same
  rw [← grew, count, countToo] at fewer
  exact Nat.lt_irrefl _ fewer

omit inside in
/-- A file that a stack fills holds the same document if the stack is rendered into the same
template. -/
theorem document_withNew (isStack : app.tree.isStack stack = true) :
    ∃ holder, app.tree.Fills stack holder ∧ (app.tree.isNested stack = false → holder = stack) ∧
      (SameDocument app.tree grown.tree assembly last stack ↔
        prepared.ownTemplate? app.tree holder = other.ownTemplate? grown.tree holder) := by
  have sameStacks : ∀ stack, grown.tree.isStack stack = app.tree.isStack stack := fun stack =>
    grew ▸ Tree.isStack_withNew noStack stack
  have files : ∀ stack, app.tree.isStack stack = true →
      grown.tree.documentFile stack = app.tree.documentFile stack :=
    fun _ => documentFile_withNew wellFormed noStack grew
  obtain ⟨holder, template, fills, itself, own, document⟩ :=
    Assembly.filled_of_prepare wellFormed ready assembled isStack
  obtain ⟨holderToo, templateToo, fillsToo, _, ownToo, documentToo⟩ :=
    Assembly.filled_of_prepare (grew ▸ wellFormed.withNew admits) readyToo assembledToo
      ((sameStacks stack).trans isStack)
  cases fills.unique fillsToo sameStacks files isStack
  rw [files stack isStack] at documentToo
  refine ⟨holder, fills, itself, ?_⟩
  rw [own, ownToo, SameDocument, document, documentToo]
  constructor
  · rintro ⟨_, _, same, sameToo⟩
    exact same.trans sameToo.symm
  · exact fun same => ⟨files stack isStack, template, rfl, same.symm⟩

omit ready readyToo in
/-- A top-level stack that is not around the addition keeps its name and its entry in the
manifest. -/
theorem artifact_withNew
    (agree : ∀ place ∉ app.tree.stackChain around, Prepared.Agree place prepared other)
    (sameGraph : prepared.graph = other.graph) (isStack : app.tree.isStack stack = true)
    (notNested : app.tree.isNested stack = false)
    (notAround : app.tree.topLevelOf? around ≠ some stack) :
    grown.tree.stackName stack = app.tree.stackName stack ∧ ∃ artifact,
      assembly.manifest.artifacts.get? (app.tree.stackName stack) = some artifact ∧
        last.manifest.artifacts.get? (app.tree.stackName stack) = some artifact := by
  have within := Tree.lt_of_isStack isStack
  have apart : stack ∉ app.tree.stackChain around := by
    intro insideStack
    refine notAround ?_
    rw [← wellFormed.topLevelOf?_of_mem (Tree.isStack_of_stackOf? inside) insideStack]
    exact wellFormed.topLevelOf?_of_outermost isStack
      (wellFormed.outermost_of_not_isNested isStack notNested)
  have sameName : grown.tree.stackName stack = app.tree.stackName stack := by
    rw [grew]
    exact ((Tree.alikeBelow_withNew app.tree scope id construct).stackName wellFormed.ordered
      within).symm
  have sameEnvironment : grown.tree.environment stack = app.tree.environment stack := by
    rw [grew]
    exact Tree.environment_withNew wellFormed.ordered within
  have isStackToo : grown.tree.isStack stack = true :=
    grew ▸ (Tree.isStack_withNew noStack stack).trans isStack
  have notNestedToo : grown.tree.isNested stack = false :=
    grew ▸ (Tree.isNested_withNew noStack stack).trans notNested
  obtain ⟨artifact, known, describes⟩ :=
    (Assembly.artifacts_of_assembly wellFormed assembled).1 stack isStack notNested
  obtain ⟨artifactToo, knownToo, describesToo⟩ :=
    (Assembly.artifacts_of_assembly (grew ▸ wellFormed.withNew admits) assembledToo).1 stack
      isStackToo notNestedToo
  have same := describes.unique describesToo sameName sameEnvironment (agree stack apart).assets
    sameGraph
  exact ⟨sameName, artifact, known, sameName ▸ same ▸ knownToo⟩

/-- An addition of a resource that consumes nothing is confined to the stacks around it. -/
theorem confined_withNew (deployed : construct.isDeployed = true)
    (assets : grown.assets = app.assets)
    (consumesNothing : grown.tree.consumedBy app.tree.size = []) :
    Confined app.tree grown.tree around prepared other assembly last := by
  obtain ⟨agree, sameGraph⟩ := Prepared.agree_of_prepare wellFormed admits noStack inside grew
    assets consumesNothing ready readyToo
  constructor
  case sameStacks => exact fun stack => grew ▸ Tree.isStack_withNew noStack stack
  case templates =>
    exact fun _ => ownTemplate_withNew wellFormed admits noStack inside grew ready assembled agree
  case changed =>
    exact ownTemplate_around_withNew wellFormed admits noStack inside grew ready readyToo assembled
      assembledToo deployed
  case documents =>
    exact fun _ => document_withNew wellFormed admits noStack grew ready readyToo assembled
      assembledToo
  case artifacts =>
    exact fun _ => artifact_withNew wellFormed admits noStack inside grew assembled assembledToo
      agree sameGraph

end Confined

namespace Application

/-- When a resource that reads nothing is added to any application, and the application can be
synthesized before and after, then every stack that is not around the addition is rendered as
before, and every other top-level stack keeps its entry in the manifest. The assembly has the same
document for a stack exactly if the stack that fills its file is rendered as before, which the stack
of the addition never is. -/
theorem additions_reach_shared_files_only (history : List (Asset.Bundler × BuildStep))
    (bundler : Asset.Bundler) {scope node : NodeId} {id : String} {resource : Resource}
    {grown : Application} {assembly last : Assembly}
    (added : (assembled history).addResource scope id resource = .ok (node, grown))
    (readsNothing : Deferred.leavesOfMembers resource.properties = [])
    (synthesized : (assembled history).synthesize bundler = .ok assembly)
    (synthesizedToo : grown.synthesize bundler = .ok last) :
    ∃ around prepared other, (assembled history).tree.stackOf? scope = some around ∧
      (assembled history).prepare bundler = .ok prepared ∧ grown.prepare bundler = .ok other ∧
      Confined (assembled history).tree grown.tree around prepared other assembly last := by
  have wellFormed := (kept_assembled history).wellFormed
  obtain ⟨prepared, ready, isAssembled⟩ := exists_of_synthesize synthesized
  obtain ⟨other, readyToo, isAssembledToo⟩ := exists_of_synthesize synthesizedToo
  obtain ⟨admits, rfl, grew⟩ := adds_addResource.admits added
  obtain ⟨around, required, placed⟩ := bind_eq_ok.mp added
  have inside := requireStack_eq_ok required
  have consumesNothing : grown.tree.consumedBy (assembled history).tree.size = [] := by
    rw [Tree.consumedBy, grew, Tree.get?_withNew, if_pos rfl]
    exact readsNothing
  exact ⟨around, prepared, other, inside, ready, readyToo,
    confined_withNew wellFormed admits rfl inside grew ready readyToo isAssembled isAssembledToo
      rfl (assets_of_addConstruct placed) consumesNothing⟩

/-- Two stacks whose ids differ in a hyphen only, each with a nested stack of the hidden id, which
hold the same. -/
def twins : List BuildStep :=
  [.topLevelStack 0 "ab" ⟨none, .unspecified⟩, .nestedStack 1 "Default",
    .resource 2 "X" ⟨"Bucket", [], none⟩, .topLevelStack 0 "a-b" ⟨none, .unspecified⟩,
    .nestedStack 4 "Default", .resource 5 "X" ⟨"Bucket", [], none⟩]

/-- The stacks of the twins and of an addition to the second nested stack. -/
structure TwinStacks (tree : Tree) : Prop where
  inside : tree.stackOf? 5 = some 5
  chain : tree.stackChain 5 = [5, 4]
  top : tree.topLevelOf? 5 = some 4
  isStackFirst : tree.isStack 1 = true
  notNestedFirst : tree.isNested 1 = false
  fileFirst : tree.documentFile 1 = "ab.template.json"
  nameFirst : tree.stackName 1 = "ab"
  isStackNested : tree.isStack 2 = true

/-- What the file of the first nested stack holds before and after a resource is added to the
second. -/
theorem twins_synthesize :
    TwinStacks (build Asset.byPath twins).tree ∧ ∃ grown assembly last template templateToo,
      (build Asset.byPath twins).addResource 5 "Y" ⟨"Bucket", [], none⟩ = .ok (7, grown) ∧
      (build Asset.byPath twins).synthesize Asset.byPath = .ok assembly ∧
      grown.synthesize Asset.byPath = .ok last ∧
      assembly.documents.get? ((build Asset.byPath twins).tree.documentFile 2) = some template ∧
      last.documents.get? (grown.tree.documentFile 2) = some templateToo ∧
      Fields.names template.resources = ["X"] ∧
      Fields.names templateToo.resources = ["X", "Y"] := by
  have stands : TwinStacks (build Asset.byPath twins).tree := by
    constructor <;> decide +kernel
  have before : ((build Asset.byPath twins).synthesize Asset.byPath).toOption.map (fun assembly =>
      (assembly.documents.get? ((build Asset.byPath twins).tree.documentFile 2)).map
        (fun template => Fields.names template.resources)) = some (some ["X"]) := by
    decide +kernel
  have after : ((build Asset.byPath twins).addResource 5 "Y" ⟨"Bucket", [], none⟩).toOption.map
      (fun added => (added.1, (added.2.synthesize Asset.byPath).toOption.map
        (fun last => (last.documents.get? (added.2.tree.documentFile 2)).map
          (fun template => Fields.names template.resources)))) =
        some (7, some (some ["X", "Y"])) := by
    decide +kernel
  obtain ⟨assembly, synthesized, document⟩ := exists_of_map_toOption before
  obtain ⟨⟨node, grown⟩, added, seen⟩ := exists_of_map_toOption after
  obtain ⟨rfl, seen⟩ := Prod.mk.inj seen
  obtain ⟨last, synthesizedToo, documentToo⟩ := exists_of_map_toOption seen
  obtain ⟨template, found, names⟩ := Option.map_eq_some_iff.mp document
  obtain ⟨templateToo, foundToo, namesToo⟩ := Option.map_eq_some_iff.mp documentToo
  exact ⟨stands, grown, assembly, last, template, templateToo, added, synthesized, synthesizedToo,
    found, foundToo, names, namesToo⟩

/-- A resource that is added to the nested stack of the second leaves the document and the manifest
entry of the first as they are. -/
theorem twins_stay_apart :
    ∃ grown assembly last,
      (assembled (twins.map (Asset.byPath, ·))).addResource 5 "Y" ⟨"Bucket", [], none⟩ =
        .ok (7, grown) ∧
      (assembled (twins.map (Asset.byPath, ·))).synthesize Asset.byPath = .ok assembly ∧
      grown.synthesize Asset.byPath = .ok last ∧
      (∃ template, assembly.documents.get? "ab.template.json" = some template ∧
        last.documents.get? "ab.template.json" = some template) ∧
      ∃ artifact, assembly.manifest.artifacts.get? "ab" = some artifact ∧
        last.manifest.artifacts.get? "ab" = some artifact := by
  obtain ⟨stands, grown, assembly, last, _, _, added, synthesized, synthesizedToo, _⟩ :=
    twins_synthesize
  obtain ⟨around, prepared, other, inside, _, _, confined⟩ :=
    additions_reach_shared_files_only (twins.map (Asset.byPath, ·)) Asset.byPath
      ((assembled_map Asset.byPath twins).symm ▸ added) rfl
      ((assembled_map Asset.byPath twins).symm ▸ synthesized) synthesizedToo
  rw [assembled_map] at inside confined ⊢
  rw [stands.inside] at inside
  cases inside
  obtain ⟨template, own, ownToo⟩ :=
    confined.templates 1 stands.isStackFirst (by rw [stands.chain]; decide)
  obtain ⟨holder, _, itself, same⟩ := confined.documents 1 stands.isStackFirst
  cases itself stands.notNestedFirst
  obtain ⟨_, document⟩ := same.mpr (own.trans ownToo.symm)
  obtain ⟨_, artifact⟩ :=
    confined.artifacts 1 stands.isStackFirst stands.notNestedFirst (by rw [stands.top]; decide)
  rw [stands.fileFirst] at document
  rw [stands.nameFirst] at artifact
  exact ⟨grown, assembly, last, added, synthesized, synthesizedToo, document, artifact⟩

/-- The nested stacks of both share a file, but have the same template, so that it holds the
document of the first as well. A resource that is added to the second takes it from the first. -/
theorem twins_interfere :
    ∃ grown assembly last template templateToo,
      (assembled (twins.map (Asset.byPath, ·))).addResource 5 "Y" ⟨"Bucket", [], none⟩ =
        .ok (7, grown) ∧
      (assembled (twins.map (Asset.byPath, ·))).synthesize Asset.byPath = .ok assembly ∧
      grown.synthesize Asset.byPath = .ok last ∧
      (assembled (twins.map (Asset.byPath, ·))).tree.stackOf? 5 = some 5 ∧
      (assembled (twins.map (Asset.byPath, ·))).tree.stackChain 5 = [5, 4] ∧
      (assembled (twins.map (Asset.byPath, ·))).tree.isStack 2 = true ∧
      assembly.documents.get?
        ((assembled (twins.map (Asset.byPath, ·))).tree.documentFile 2) = some template ∧
      last.documents.get? (grown.tree.documentFile 2) = some templateToo ∧
      Fields.names template.resources = ["X"] ∧
      Fields.names templateToo.resources = ["X", "Y"] := by
  rw [assembled_map]
  obtain ⟨stands, grown, assembly, last, template, templateToo, added, synthesized, synthesizedToo,
    found, foundToo, names, namesToo⟩ := twins_synthesize
  exact ⟨grown, assembly, last, template, templateToo, added, synthesized, synthesizedToo,
    stands.inside, stands.chain, stands.isStackNested, found, foundToo, names, namesToo⟩

end Application

end StackSynth
