/-
This file compares the synthesis of applications that hold the same constructs under different
numbers. Rendering looks constructs up and walks the tree in its order, nested stacks are rendered
by their depth and otherwise in the order of the tree, and of assets only hashes and packagings are
looked at; so every stage yields the same, or fails where the other fails. No number is left in
templates, nor in the manifest, where only the assets of a stack come in another order.
-/

import StackSynth.Proofs.Asset.Renumbering
import StackSynth.Proofs.Synthesis.Uses
import StackSynth.Proofs.Wiring.Renumbering

namespace StackSynth

open Outcome

variable {number : NodeId ≃ NodeId} {tree treeToo : Tree}

/-! ### Rendering -/

/-- The template of a nested stack when every construct has another number. -/
def EmbeddedTemplate.renumber (number : NodeId ≃ NodeId) (embedded : EmbeddedTemplate) :
    EmbeddedTemplate :=
  { embedded with location := embedded.location.renumber number }

/-- What rendering reads of the same stacks under other numbers. -/
structure Rendering.Renumbers (number : NodeId ≃ NodeId) (first second : Rendering) : Prop where
  wiring : first.wiring.Renumbers number second.wiring
  embedded : ∀ stack, second.embedded.get? (number stack) =
    (first.embedded.get? stack).map (EmbeddedTemplate.renumber number)

namespace Rendering.Renumbers

variable {first second : Rendering} {stack : NodeId} (renumbers : first.Renumbers number second)
  (trees : tree.Renumbers number treeToo)
include renumbers trees

theorem view (leaf : Leaf) :
    Concur (· = ·) (tree.view first.wiring.table stack leaf)
      (treeToo.view second.wiring.table (number stack) (leaf.renumber number)) := by
  rw [Tree.view, Tree.view, Leaf.ownIdentity?_renumber]
  cases leaf.ownIdentity? stack with
  | some pseudo => exact .ok rfl
  | none =>
    refine (trees.producer leaf).bind ?_
    rintro producer _ rfl
    by_cases atHome : producer.home = stack
    · rw [if_pos atHome, if_pos (by rw [Producer.home_renumber, atHome])]
      exact .ok rfl
    · rw [if_neg atHome, if_neg (by rwa [Producer.home_renumber, number.apply_eq_iff_eq]),
        renumbers.wiring.table]
      cases first.wiring.table.get? (leaf, stack) with
      | none => exact .error _ _
      | some value => exact .ok rfl

theorem write (value : Deferred) :
    Concur (· = ·) (first.write tree stack value)
      (second.write treeToo (number stack) (value.renumber number)) :=
  (Deferred.resolve_renumber (renumbers.view trees) value).mapError _ _

theorem embeddingResource (nested : NodeId) :
    Concur (· = ·) (first.embeddingResource tree stack nested)
      (second.embeddingResource treeToo (number stack) (number nested)) := by
  rw [Rendering.embeddingResource, Rendering.embeddingResource, renumbers.embedded,
    renumbers.wiring.states]
  cases first.embedded.get? nested with
  | none => exact .error _ _
  | some embedded =>
    refine (renumbers.write trees embedded.location).bind ?_
    rintro location _ rfl
    exact .ok rfl

theorem declarationOf (member : NodeId) :
    Concur (· = ·) (first.declarationOf tree stack member)
      (second.declarationOf treeToo (number stack) (number member)) := by
  rw [Rendering.declarationOf, Rendering.declarationOf, trees.nodes, trees.logicalId]
  cases tree.get? member with
  | none => exact .ok rfl
  | some found =>
    obtain ⟨id, parent, construct⟩ := found
    have named : Concur (· = ·) ((tree.logicalId member).mapError SynthesisError.construct)
        ((tree.logicalId member).mapError SynthesisError.construct) := .refl _
    cases construct with
    | parameter declaration =>
      refine named.bind ?_
      rintro name _ rfl
      exact .ok rfl
    | resource content =>
      refine ((Deferred.resolveMembers_renumber (renumbers.view trees)
        content.properties).mapError _ _).bind ?_
      rintro properties _ rfl
      refine named.bind ?_
      rintro name _ rfl
      exact .ok rfl
    | output spec =>
      refine (renumbers.write trees spec.value).bind ?_
      rintro value _ rfl
      refine named.bind ?_
      rintro name _ rfl
      exact .ok rfl
    | nestedStack =>
      refine (renumbers.embeddingResource trees member).bind ?_
      rintro resource _ rfl
      refine (trees.embeddingId.mapError _ _).bind ?_
      rintro name _ rfl
      exact .ok rfl
    | _ => exact .ok rfl

omit renumbers trees in
theorem declare (template : Template) (name : String) (declaration : Declaration) :
    Concur (· = ·) (Rendering.declare tree stack template name declaration)
      (Rendering.declare treeToo (number stack) template name declaration) := by
  rw [Rendering.declare, Rendering.declare]
  split
  · exact .error _ _
  · exact .ok rfl

theorem declareMember (template : Template) (member : NodeId) :
    Concur (· = ·) (first.declareMember tree stack template member)
      (second.declareMember treeToo (number stack) template (number member)) := by
  refine (renumbers.declarationOf trees member).bind ?_
  rintro declared _ rfl
  cases declared with
  | none => exact .ok rfl
  | some pair => exact declare template pair.1 pair.2

/-- The template of a stack is the same. -/
theorem template (assetParameters : SortedMap String ParameterDecl) :
    Concur (· = ·) (first.template tree stack assetParameters)
      (second.template treeToo (number stack) assetParameters) := by
  rw [Rendering.template, Rendering.template, trees.membersOf, renumbers.wiring.states]
  have declared : Concur (· = ·)
      ((tree.membersOf stack).foldlM (first.declareMember tree stack) Template.empty)
      (((tree.membersOf stack).map number).foldlM (second.declareMember treeToo (number stack))
        Template.empty) :=
    .foldlM (fun member _ template _ same => same ▸ renumbers.declareMember trees template member)
      rfl
  refine declared.bind ?_
  rintro template _ rfl
  exact .foldlM_same (fun added _ template => declare template added.1 added.2) template

end Rendering.Renumbers

/-! ### Preparation -/

/-- Preparations of the same stacks under other numbers. -/
structure Prepared.Renumbers (number : NodeId ≃ NodeId) (first second : Prepared) : Prop where
  rendering : first.rendering.Renumbers number second.rendering
  assets : first.assets.Renumbers number second.assets
  once : first.assets.Once
  onceToo : second.assets.Once
  digested : first.assets.Digested

theorem Tree.Renumbers.graph (trees : tree.Renumbers number treeToo) :
    (Prepared.stackGraph tree).Renumbers number (Prepared.stackGraph treeToo) := by
  have added : ∀ (nodes : List NodeId) {graph graphToo : DeployGraph},
      graph.Renumbers number graphToo →
      (nodes.foldl (fun graph stack => graph.addStack stack (tree.stackName stack))
        graph).Renumbers number
        ((nodes.map number).foldl
          (fun graph stack => graph.addStack stack (treeToo.stackName stack)) graphToo) := by
    intro nodes
    induction nodes with
    | nil => exact fun graphs => graphs
    | cons stack rest inductionHypothesis =>
      intro graph graphToo graphs
      have sameName : treeToo.stackName (number stack) = tree.stackName stack := trees.stackName
      refine inductionHypothesis ?_
      dsimp only
      rw [sameName]
      exact graphs.addStack stack (tree.stackName stack)
  rw [Prepared.stackGraph, Prepared.stackGraph, trees.topLevelStacks]
  exact added tree.topLevelStacks DeployGraph.renumbers_empty

theorem Tree.Renumbers.nestedStacks (trees : tree.Renumbers number treeToo) :
    Prepared.nestedStacks treeToo = (Prepared.nestedStacks tree).map number := by
  have placed : ∀ (stack : NodeId) (nodes : List NodeId),
      Prepared.placeByDepth treeToo (number stack) (nodes.map number) =
        (Prepared.placeByDepth tree stack nodes).map number := by
    intro stack nodes
    induction nodes with
    | nil => rfl
    | cons first rest inductionHypothesis =>
      rw [List.map_cons, Prepared.placeByDepth, Prepared.placeByDepth, trees.stackChain,
        trees.stackChain, List.length_map, List.length_map, inductionHypothesis]
      split <;> rfl
  have sorted : ∀ nodes : List NodeId,
      (nodes.map number).foldr (Prepared.placeByDepth treeToo) [] =
        (nodes.foldr (Prepared.placeByDepth tree) []).map number := by
    intro nodes
    induction nodes with
    | nil => rfl
    | cons first rest inductionHypothesis =>
      rw [List.map_cons, List.foldr_cons, List.foldr_cons, inductionHypothesis, placed]
  rw [Prepared.nestedStacks, Prepared.nestedStacks, trees.allStacks, List.filter_map, sorted]
  have same : treeToo.isNested ∘ number = tree.isNested := funext fun _ => trees.isNested
  rw [same]

namespace Prepared.Renumbers

variable {first second : Prepared} {stack : NodeId} {bundler : Asset.Bundler}
  (trees : tree.Renumbers number treeToo)
include trees

theorem wireMore (renumbers : first.Renumbers number second) (references : List Reference) :
    Concur (Prepared.Renumbers number) (Prepared.wireMore tree first references)
      (Prepared.wireMore treeToo second (references.map (Reference.renumber number))) := by
  refine ((renumbers.rendering.wiring.wireAll trees references).mapError _ _).bind ?_
  intro one other wired
  exact .ok { renumbers with rendering := { renumbers.rendering with wiring := wired } }

/-- The values that locate a template are found at the other numbers. -/
theorem location (stack top parent : NodeId) (hash : ContentHash) :
    Concur (fun one other => one.map (Reference.renumber number) = other)
      (tree.referencesAmong stack parent [] (⟨stack, top, hash⟩ : Asset.Handle).webUrl.leaves)
      (treeToo.referencesAmong (number stack) (number parent) []
        (⟨number stack, number top, hash⟩ : Asset.Handle).webUrl.leaves) :=
  trees.referencesAmong stack (⟨stack, top, hash⟩ : Asset.Handle).webUrl.leaves []

theorem embed (renumbers : first.Renumbers number second)
    (digests : ∀ source hash, bundler source = .ok hash → Naming.IsDigest hash) (stack : NodeId) :
    Concur (Prepared.Renumbers number) (Prepared.embed tree bundler first stack)
      (Prepared.embed treeToo bundler second (number stack)) := by
  rw [Prepared.embed, Prepared.embed]
  refine (renumbers.rendering.template trees ∅).bind ?_
  rintro template _ rfl
  have sameFile : nestedFile treeToo (number stack) = nestedFile tree stack := by
    rw [nestedFile, nestedFile, trees.uniqueId]
  simp only [sameFile]
  cases hashed : bundler (.inline (nestedFile tree stack) template.toJson.compact.toUTF8) with
  | error cause => exact .error _ _
  | ok hash =>
    rw [trees.topLevelOf?, trees.parentStack?]
    cases tree.topLevelOf? stack with
    | none => exact .error _ _
    | some top =>
      cases tree.parentStack? stack with
      | none => exact .error _ _
      | some parent =>
        refine ((location trees stack top parent hash).mapError _ _).bind ?_
        rintro references _ rfl
        refine (renumbers.wireMore trees references).bind fun next nextToo alike => .ok ?_
        constructor
        case rendering =>
          refine { alike.rendering with embedded := fun other => ?_ }
          by_cases here : other = stack
          · rw [here, SortedMap.get?_insert_self, SortedMap.get?_insert_self]
            rfl
          · rw [SortedMap.get?_insert_of_ne here,
              SortedMap.get?_insert_of_ne (number.injective.ne here), alike.rendering.embedded]
        case assets => exact alike.assets.register top rfl rfl
        case once => exact alike.once.register top _
        case onceToo => exact alike.onceToo.register (number top) _
        case digested => exact alike.digested.register (digests _ _ hashed)

end Prepared.Renumbers

namespace Tree.Renumbers

variable {graph graphToo : DeployGraph} (trees : tree.Renumbers number treeToo)
include trees

theorem checkEnvironments (importer exporter : NodeId) :
    Concur (· = ·) (Prepared.checkEnvironments tree graph importer exporter)
      (Prepared.checkEnvironments treeToo graphToo (number importer) (number exporter)) := by
  refine (trees.environment.mapError _ _).bind ?_
  rintro importing _ rfl
  refine (trees.environment.mapError _ _).bind ?_
  rintro exporting _ rfl
  split
  · exact .error _ _
  · exact .ok rfl

/-- What can be deployed under some numbers can be under others. -/
theorem checkGraph (graphs : graph.Renumbers number graphToo) (complete : graph.Complete)
    (completeToo : graphToo.Complete) :
    Concur (· = ·) (Prepared.checkGraph tree graph) (Prepared.checkGraph treeToo graphToo) := by
  have environments : Concur (· = ·)
      (graph.edges.forM fun edge => Prepared.checkEnvironments tree graph edge.1 edge.2)
      (graphToo.edges.forM fun edge =>
        Prepared.checkEnvironments treeToo graphToo edge.1 edge.2) := by
    refine .unit ?_
    rw [forM_eq_ok, forM_eq_ok]
    constructor
    · intro all edge member
      obtain ⟨importer, exporter⟩ := edge
      rw [← number.apply_symm_apply importer, ← number.apply_symm_apply exporter] at member ⊢
      rw [DeployGraph.mem_edges, graphs.dependsOn, ← DeployGraph.mem_edges] at member
      obtain ⟨_, passed, _⟩ :=
        (trees.checkEnvironments _ _).exists_of_eq_ok (all _ member)
      exact passed
    · intro all edge member
      obtain ⟨importer, exporter⟩ := edge
      rw [DeployGraph.mem_edges, ← graphs.dependsOn, ← DeployGraph.mem_edges] at member
      obtain ⟨_, passed, _⟩ :=
        (trees.checkEnvironments importer exporter).symm.exists_of_eq_ok (all _ member)
      exact passed
  refine environments.bind fun _ _ _ => ?_
  exact (graphs.verifyAcyclic complete completeToo).mapError _ _

end Tree.Renumbers

/-- Applications of the same constructs under other numbers. -/
structure Application.Renumbers (number : NodeId ≃ NodeId) (first second : Application) : Prop where
  tree : first.tree.Renumbers number second.tree
  assets : first.assets.Renumbers number second.assets
  once : first.assets.Once
  onceToo : second.assets.Once
  digested : first.assets.Digested

namespace Application.Renumbers

variable {first second : Application} {bundler : Asset.Bundler}
  (renumbers : first.Renumbers number second)
include renumbers

theorem start :
    Concur (Prepared.Renumbers number) (Prepared.start first) (Prepared.start second) := by
  refine (renumbers.tree.references.mapError _ _).bind ?_
  rintro references _ rfl
  have begun := Wiring.Renumbers.start renumbers.tree.graph
    (Prepared.complete_stackGraph first.tree) (Prepared.complete_stackGraph second.tree)
  refine ((begun.wireAll renumbers.tree references).mapError _ _).bind fun one other wired => .ok ?_
  exact { renumbers with rendering := ⟨wired, fun _ => rfl⟩ }

/-- Applications of the same constructs are prepared alike, or neither is. -/
theorem prepare (digests : ∀ source hash, bundler source = .ok hash → Naming.IsDigest hash) :
    Concur (Prepared.Renumbers number) (first.prepare bundler) (second.prepare bundler) := by
  refine renumbers.start.bind fun started startedToo alike => ?_
  rw [renumbers.tree.nestedStacks]
  refine (Concur.foldlM (fun stack _ _ _ alike => alike.embed renumbers.tree digests stack)
    alike).bind fun prepared preparedToo alike => ?_
  refine (renumbers.tree.checkGraph alike.rendering.wiring.graph alike.rendering.wiring.complete
    alike.rendering.wiring.completeToo).bind fun _ _ _ => .ok alike

end Application.Renumbers

/-! ### Assemblies -/

/-- What a template receives of an asset: by which parameters, and of which content. -/
def Manifest.Asset.entry (asset : Manifest.Asset) : ContentHash × SortedMap String String :=
  (asset.sourceHash, asset.parameters)

/-- Two descriptions of a stack that differ in the order of its assets at most, and in where these
are found. -/
structure Manifest.Artifact.Alike (first second : Manifest.Artifact) : Prop where
  templateFile : first.templateFile = second.templateFile
  environment : first.environment = second.environment
  dependencies : first.dependencies = second.dependencies
  assets : ∀ entry, entry ∈ first.assets.map Asset.entry ↔ entry ∈ second.assets.map Asset.entry

/-- Two manifests that describe stacks of the same names alike. -/
def Manifest.Alike (first second : Manifest) : Prop :=
  ∀ name, Option.Rel Artifact.Alike (first.artifacts.get? name) (second.artifacts.get? name)

theorem Manifest.Alike.contains {first second : Manifest} (alike : first.Alike second)
    (name : String) : first.artifacts.contains name = second.artifacts.contains name := by
  have related := alike name
  rw [SortedMap.contains, SortedMap.contains]
  revert related
  generalize first.artifacts.get? name = one
  generalize second.artifacts.get? name = other
  rintro (_ | _) <;> rfl

namespace Prepared.Renumbers

variable {first second : Prepared} {stack : NodeId} (renumbers : first.Renumbers number second)
include renumbers

/-- The same assets are published for a stack. -/
theorem mem_entries (entry : ContentHash × SortedMap String String) :
    entry ∈ ((first.assets.assetsOf stack).map Manifest.Asset.ofRecord).map Manifest.Asset.entry ↔
      entry ∈ ((second.assets.assetsOf (number stack)).map Manifest.Asset.ofRecord).map
        Manifest.Asset.entry := by
  have included : ∀ {number : NodeId ≃ NodeId} {first second : Asset.Registry} {stack : NodeId},
      first.Renumbers number second → first.Once → second.Once →
      entry ∈ ((first.assetsOf stack).map Manifest.Asset.ofRecord).map Manifest.Asset.entry →
      entry ∈ ((second.assetsOf (number stack)).map Manifest.Asset.ofRecord).map
        Manifest.Asset.entry := by
    intro number first second stack alike once onceToo member
    rw [List.map_map] at member ⊢
    obtain ⟨record, listed, rfl⟩ := List.mem_map.mp member
    obtain ⟨other, listedToo, sameHash, samePackaging⟩ := alike.exists_mem once onceToo listed
    refine List.mem_map.mpr ⟨other, listedToo, ?_⟩
    simp only [Function.comp_apply, Manifest.Asset.entry, Manifest.Asset.ofRecord,
      Asset.Record.parameterNames, Asset.Record.parameterName, sameHash, samePackaging]
  refine ⟨included renumbers.assets renumbers.once renumbers.onceToo, fun member => ?_⟩
  have back := included renumbers.assets.symm renumbers.onceToo renumbers.once member
  rwa [number.symm_apply_apply] at back

theorem dependencyNames (trees : tree.Renumbers number treeToo)
    (graphs : GraphsUses tree first.graph) (graphsToo : GraphsUses treeToo second.graph)
    (isStack : tree.isStack stack = true) (notNested : tree.isNested stack = false) :
    Concur (· = ·) (first.graph.dependencyNames stack)
      (second.graph.dependencyNames (number stack)) := by
  have sameGraph : first.graph.Renumbers number second.graph := renumbers.rendering.wiring.graph
  rw [DeployGraph.dependencyNames, DeployGraph.dependencyNames, SortedMap.contains,
    SortedMap.contains, sameGraph.names, sameGraph.dependencies,
    graphs.dependencies stack isStack notNested]
  split
  · refine .ok ?_
    rw [List.map_map]
    refine List.map_congr_left fun other member => ?_
    obtain ⟨_, isStackOther, notNestedOther⟩ := trees.wellFormed.outermost_of_usedBy member
    rw [graphs.name other isStackOther notNestedOther, Function.comp_apply,
      graphsToo.name (number other) (trees.isStack.trans isStackOther)
        (trees.isNested.trans notNestedOther), trees.stackName]
  · exact .error _ _

theorem addStack (trees : tree.Renumbers number treeToo)
    (graphs : GraphsUses tree first.graph) (graphsToo : GraphsUses treeToo second.graph)
    (isStack : tree.isStack stack = true) (notNested : tree.isNested stack = false)
    {assembly other : Assembly} (alike : assembly.manifest.Alike other.manifest) :
    Concur (fun one two => one.manifest.Alike two.manifest)
      (Assembly.addStack tree first assembly stack)
      (Assembly.addStack treeToo second other (number stack)) := by
  rw [Assembly.addStack, Assembly.addStack]
  simp only [trees.stackName]
  refine .check ?_ ?_
  · rw [alike.contains]
  · rw [renumbers.assets.parametersOf renumbers.once renumbers.onceToo renumbers.digested]
    refine (renumbers.rendering.template trees _).bind ?_
    rintro template _ rfl
    refine (trees.environment.mapError _ _).bind ?_
    rintro environment _ rfl
    refine ((renumbers.dependencyNames trees graphs graphsToo isStack notNested).mapError
      _ _).bind ?_
    rintro dependencies _ rfl
    refine .ok fun name => ?_
    by_cases here : name = tree.stackName stack
    · rw [here, SortedMap.get?_insert_self, SortedMap.get?_insert_self]
      exact .some ⟨rfl, rfl, rfl, renumbers.mem_entries⟩
    · rw [SortedMap.get?_insert_of_ne here, SortedMap.get?_insert_of_ne here]
      exact alike name

theorem assembly (trees : tree.Renumbers number treeToo)
    (graphs : GraphsUses tree first.graph) (graphsToo : GraphsUses treeToo second.graph) :
    Concur (fun one two => one.manifest.Alike two.manifest)
      (first.assembly tree) (second.assembly treeToo) := by
  rw [Prepared.assembly, Prepared.assembly, trees.topLevelStacks]
  have topLevel : Concur (fun one two => one.manifest.Alike two.manifest)
      (tree.topLevelStacks.foldlM (Assembly.addStack tree first) .empty)
      ((tree.topLevelStacks.map number).foldlM (Assembly.addStack treeToo second) .empty) := by
    refine .foldlM (fun stack member _ _ alike => ?_) (fun _ => .none)
    obtain ⟨isStack, notNested⟩ := trees.wellFormed.mem_topLevelStacks.mp member
    exact renumbers.addStack trees graphs graphsToo isStack notNested alike
  refine topLevel.bind fun one two alike => .ok ?_
  rwa [Assembly.manifest_foldl_addEmbedded, Assembly.manifest_foldl_addEmbedded]

/-- Every stack has the same template. -/
theorem ownTemplate? (trees : tree.Renumbers number treeToo) (stack : NodeId) :
    second.ownTemplate? treeToo (number stack) = first.ownTemplate? tree stack := by
  rw [Prepared.ownTemplate?, Prepared.ownTemplate?, trees.isNested]
  split
  · rw [renumbers.rendering.embedded]
    cases first.rendering.embedded.get? stack <;> rfl
  · rw [renumbers.assets.parametersOf renumbers.once renumbers.onceToo renumbers.digested]
    exact (renumbers.rendering.template trees (first.assets.parametersOf stack)).toOption_eq.symm

end Prepared.Renumbers

end StackSynth
