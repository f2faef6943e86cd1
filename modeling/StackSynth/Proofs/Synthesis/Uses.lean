/-
This file proves that the manifest lists for a stack the stacks whose values it uses, and no others.
The references of an application are found in the order of the tree. A leaf for which a construct
gets none was met in it before or is at home in its stack, so it adds nothing that was not met
before, and what is left of the references in a stack are the other stacks in the order in which a
walk through the tree first meets them. They are listed by name, and names are not shared.
-/

import StackSynth.Proofs.Synthesis.Dependencies
import StackSynth.Proofs.Synthesis.Documents
import StackSynth.Proofs.Wiring.Standing

namespace StackSynth

open Outcome

/-! ### What a stack uses -/

namespace Tree

/-- The top-level stack in which a leaf is at home. -/
def sourceOf? (tree : Tree) (leaf : Leaf) : Option NodeId :=
  (tree.producer leaf).toOption.bind (fun producer => tree.topLevelOf? producer.home)

/-- The top-level stack in which a leaf is at home, unless it is the given one. -/
def usedFrom? (tree : Tree) (top : NodeId) (leaf : Leaf) : Option NodeId :=
  (tree.sourceOf? leaf).filter (· ≠ top)

/-- The leaves that the constructs in a stack consume, in the order of the tree. -/
def consumedUnder (tree : Tree) (top : NodeId) (nodes : List NodeId) : List Leaf :=
  (nodes.filter (fun node => (tree.ancestors node).contains top)).flatMap tree.consumedBy

/-- The other top-level stacks whose values are consumed in a top-level stack, in the order in which
a walk through the tree first meets them. -/
def usedBy (tree : Tree) (top : NodeId) : List NodeId :=
  ((tree.consumedUnder top tree.preorder).filterMap (tree.usedFrom? top)).eraseDups

/-- What references make a stack depend on. -/
def importedFor (tree : Tree) (top : NodeId) (references : List Reference) : List NodeId :=
  DeployGraph.among top (references.filterMap tree.import?)

variable {tree : Tree} {top stack node : NodeId} {leaf : Leaf} {reference : Reference}

theorem consumedUnder_singleton : tree.consumedUnder top [node] =
    if top ∈ tree.ancestors node then tree.consumedBy node else [] := by
  by_cases inside : top ∈ tree.ancestors node <;> simp [consumedUnder, inside]

theorem consumedUnder_cons (node : NodeId) (rest : List NodeId) :
    tree.consumedUnder top (node :: rest) =
      tree.consumedUnder top [node] ++ tree.consumedUnder top rest := by
  rw [consumedUnder, consumedUnder, consumedUnder, ← List.flatMap_append, ← List.filter_append,
    List.singleton_append]

theorem importedFor_append (front back : List Reference) :
    tree.importedFor top (front ++ back) =
      tree.importedFor top front ++ tree.importedFor top back := by
  rw [importedFor, List.filterMap_append, DeployGraph.among_append, ← importedFor, ← importedFor]

/-- A reference in a top-level stack makes it depend on where the leaf comes from. -/
theorem importedFor_of_proper (proper : reference.Proper tree)
    (within : tree.topLevelOf? reference.consumerStack = some top) :
    tree.importedFor top [reference] = (tree.usedFrom? top reference.leaf).toList := by
  have source : tree.sourceOf? reference.leaf = tree.topLevelOf? reference.producer.home := by
    rw [sourceOf?, proper.origin]
    rfl
  rw [usedFrom?, source, importedFor]
  cases home : tree.topLevelOf? reference.producer.home with
  | none => simp [import?, within, home, DeployGraph.among]
  | some exporter =>
    by_cases same : exporter = top
    · simp [import?, within, home, same, DeployGraph.among]
    · simp [import?, within, home, same, DeployGraph.among, Option.filter]

/-- A reference in another top-level stack makes it depend on nothing. -/
theorem importedFor_of_elsewhere (elsewhere : tree.topLevelOf? reference.consumerStack ≠ some top) :
    tree.importedFor top [reference] = [] := by
  rw [importedFor]
  cases imported : tree.import? reference with
  | none => simp [imported, DeployGraph.among]
  | some pair =>
    rw [import?] at imported
    split at imported
    · rename_i importer exporter goal _
      split at imported
      · cases imported
      · cases imported
        have apart : importer ≠ top := fun same => elsewhere (same ▸ goal)
        simp_all [import?, DeployGraph.among]
    · cases imported

/-- References in other top-level stacks make it depend on nothing. -/
theorem importedFor_of_all_elsewhere {references : List Reference}
    (elsewhere : ∀ reference ∈ references,
      tree.topLevelOf? reference.consumerStack ≠ some top) :
    tree.importedFor top references = [] := by
  induction references with
  | nil => rfl
  | cons reference rest inductionHypothesis =>
    obtain ⟨atHead, later⟩ := List.forall_mem_cons.mp elsewhere
    rw [← List.singleton_append, importedFor_append, importedFor_of_elsewhere atHead,
      inductionHypothesis later]
    rfl

variable (wellFormed : tree.WellFormed)
include wellFormed

/-- What needs no wiring in a stack comes from its own top-level stack. -/
theorem WellFormed.usedFrom?_of_indigenous (indigenous : tree.Indigenous leaf stack)
    (isStack : tree.isStack stack = true) (within : tree.topLevelOf? stack = some top) :
    tree.usedFrom? top leaf = none := by
  have atHome : ∀ {producer}, tree.producer leaf = .ok producer →
      tree.topLevelOf? producer.home = some top := by
    intro producer origin
    rcases indigenous with own | ⟨other, sameOrigin, atHome⟩
    · obtain ⟨pseudo, own⟩ := Option.isSome_iff_exists.mp own
      obtain ⟨attr, rfl, _⟩ := Leaf.eq_of_ownIdentity? own
      cases nested : tree.isNested stack with
      | true =>
        rw [← wellFormed.topLevelOf?_of_nested isStack (home_of_nested nested origin), within]
      | false =>
        obtain ⟨home, _, _, native⟩ := producer
        cases atHome_of_producer origin with
        | own => exact within
        | nestedId nestedIn => simp [nestedIn.isNested] at nested
        | nestedName nestedIn => simp [nestedIn.isNested] at nested
    · rw [origin] at sameOrigin
      cases sameOrigin
      exact atHome ▸ within
  rw [usedFrom?, sourceOf?]
  cases origin : tree.producer leaf with
  | error _ => rfl
  | ok producer =>
    show (tree.topLevelOf? producer.home).filter (· ≠ top) = none
    rw [atHome origin]
    simp

omit wellFormed in
/-- A leaf behind which nothing new is used may be left out. -/
theorem sameFirsts_skip {met : List NodeId} {rest : List Leaf}
    (isMet : ∀ used, tree.usedFrom? top leaf = some used → used ∈ met) :
    SameFirsts (met ++ rest.filterMap (tree.usedFrom? top))
      (met ++ (leaf :: rest).filterMap (tree.usedFrom? top)) := by
  cases uses : tree.usedFrom? top leaf with
  | none => rw [List.filterMap_cons_none uses]; rfl
  | some used =>
    rw [List.filterMap_cons_some uses, List.append_cons]
    exact ((sameFirsts_of_mem (isMet used uses)).append _).symm

omit wellFormed in
theorem filterMap_usedFrom?_cons (rest : List Leaf) :
    (leaf :: rest).filterMap (tree.usedFrom? top) =
      (tree.usedFrom? top leaf).toList ++ rest.filterMap (tree.usedFrom? top) := by
  cases uses : tree.usedFrom? top leaf with
  | none => rw [List.filterMap_cons_none uses]; rfl
  | some used => rw [List.filterMap_cons_some uses]; rfl

/-- Among the leaves that a construct consumes, those that get a reference meet every other
top-level stack that all of them meet. -/
theorem WellFormed.sameFirsts_of_finds (isStack : tree.isStack stack = true)
    (within : tree.topLevelOf? stack = some top) {seen leaves : List Leaf}
    {references : List Reference} (finds : tree.Finds node stack seen leaves references) :
    ∀ {met : List NodeId},
      (∀ leaf ∈ seen, ∀ used, tree.usedFrom? top leaf = some used → used ∈ met) →
      SameFirsts (met ++ tree.importedFor top references)
        (met ++ leaves.filterMap (tree.usedFrom? top)) := by
  induction finds with
  | done => exact fun _ => rfl
  | met isSeen _ inductionHypothesis =>
    exact fun known => (inductionHypothesis known).trans (sameFirsts_skip (known _ isSeen))
  | unneeded _ atLeaf _ inductionHypothesis =>
    intro met known
    have unused := wellFormed.usedFrom?_of_indigenous (indigenous_of_referenceBetween atLeaf)
      isStack within
    refine (inductionHypothesis known).trans (sameFirsts_skip fun used uses => ?_)
    rw [unused] at uses
    cases uses
  | @needed _ _ leaf reference further _ atLeaf _ inductionHypothesis =>
    intro met known
    obtain ⟨proper, rfl, rfl⟩ := proper_of_referenceBetween atLeaf
    rw [← List.singleton_append, importedFor_append, importedFor_of_proper proper within,
      filterMap_usedFrom?_cons, ← List.append_assoc, ← List.append_assoc]
    refine inductionHypothesis (List.forall_mem_cons.mpr ⟨fun used uses => ?_, ?_⟩)
    · rw [uses]
      exact List.mem_append_right _ List.mem_cons_self
    · exact fun leaf before used uses => List.mem_append_left _ (known leaf before used uses)

/-- The references of a construct meet the top-level stacks that it uses if it is in the stack. -/
theorem WellFormed.sameFirsts_of_referencesOf (isStack : tree.isStack top = true)
    (outermost : tree.parentStack? top = none) {references : List Reference} {met : List NodeId}
    (found : tree.referencesOf node = .ok references) :
    SameFirsts (met ++ tree.importedFor top references)
      (met ++ (tree.consumedUnder top [node]).filterMap (tree.usedFrom? top)) := by
  rw [referencesOf] at found
  cases consumed : tree.consumedBy node with
  | nil =>
    rw [consumed] at found
    cases found
    rw [consumedUnder_singleton, consumed, ite_self]
    rfl
  | cons leaf leaves =>
    rw [consumed] at found
    cases belongs : tree.stackOf? node with
    | none =>
      rw [belongs] at found
      cases found
    | some stack =>
      rw [belongs] at found
      have sameTop := wellFormed.topLevelOf?_of_stackOf? belongs
      have inside : top ∈ tree.ancestors node ↔ tree.topLevelOf? node = some top :=
        wellFormed.mem_ancestors_iff isStack outermost
      by_cases within : tree.topLevelOf? stack = some top
      · rw [consumedUnder_singleton, if_pos (inside.mpr (sameTop.trans within)), consumed]
        exact wellFormed.sameFirsts_of_finds (isStack_of_stackOf? belongs) within
          (finds_of_referencesAmong found) (fun _ never => absurd never List.not_mem_nil)
      · have imported : tree.importedFor top references = [] := by
          refine importedFor_of_all_elsewhere fun reference isFound => ?_
          obtain ⟨_, _, sameStack⟩ := (referencesAmong_eq_ok found).2 reference isFound
          exact sameStack ▸ within
        rw [consumedUnder_singleton, imported,
          if_neg (fun member => within (sameTop ▸ inside.mp member))]
        rfl

/-- The references of constructs meet the top-level stacks that the constructs in a stack use. -/
theorem WellFormed.sameFirsts_of_references (isStack : tree.isStack top = true)
    (outermost : tree.parentStack? top = none) {nodes : List NodeId} :
    ∀ {perNode : List (List Reference)} {met : List NodeId},
      nodes.mapM tree.referencesOf = .ok perNode →
      SameFirsts (met ++ tree.importedFor top perNode.flatten)
        (met ++ (tree.consumedUnder top nodes).filterMap (tree.usedFrom? top)) := by
  induction nodes with
  | nil =>
    intro perNode met found
    cases found
    rfl
  | cons node rest inductionHypothesis =>
    intro perNode met found
    simp only [List.mapM_cons, bind_eq_ok, pure_eq_ok] at found
    obtain ⟨ofNode, foundNode, later, foundLater, rfl⟩ := found
    rw [List.flatten_cons, importedFor_append, consumedUnder_cons, List.filterMap_append,
      ← List.append_assoc, ← List.append_assoc]
    exact (inductionHypothesis foundLater).trans
      ((wellFormed.sameFirsts_of_referencesOf isStack outermost foundNode).append _)

/-- A top-level stack uses another one exactly if something in it consumes a leaf that is at home
in the other. -/
theorem WellFormed.mem_usedBy {other : NodeId} (isStack : tree.isStack other = true)
    (outermost : tree.parentStack? other = none) :
    other ∈ tree.usedBy top ↔ top ≠ other ∧ ∃ node leaf producer,
      top ∈ tree.ancestors node ∧ leaf ∈ tree.consumedBy node ∧
        tree.producer leaf = .ok producer ∧ other ∈ tree.ancestors producer.home := by
  have uses : ∀ {leaf}, tree.usedFrom? top leaf = some other ↔
      top ≠ other ∧ ∃ producer, tree.producer leaf = .ok producer ∧
        other ∈ tree.ancestors producer.home := by
    intro leaf
    rw [usedFrom?, Option.filter_eq_some_iff, sourceOf?, decide_eq_true_eq, ne_comm, and_comm]
    refine and_congr_right fun _ => ?_
    cases origin : tree.producer leaf with
    | error _ => exact iff_of_false (fun never => nomatch never) (by simp)
    | ok producer =>
      show tree.topLevelOf? producer.home = some other ↔ _
      rw [← wellFormed.mem_ancestors_iff isStack outermost]
      simp
  rw [usedBy, List.mem_eraseDups, List.mem_filterMap]
  simp only [uses, consumedUnder, List.mem_flatMap, List.mem_filter, List.contains_iff_mem,
    wellFormed.mem_preorder]
  constructor
  · rintro ⟨leaf, ⟨node, ⟨_, inside⟩, consumed⟩, apart, producer, origin, atHome⟩
    exact ⟨apart, node, leaf, producer, inside, consumed, origin, atHome⟩
  · rintro ⟨apart, node, leaf, producer, inside, consumed, origin, atHome⟩
    exact ⟨leaf, ⟨node, ⟨lt_of_consumedBy consumed, inside⟩, consumed⟩, apart, producer, origin,
      atHome⟩

end Tree

/-! ### The manifest -/

/-- One stack is listed among those to be deployed before another. -/
def Manifest.DependsOn (manifest : Manifest) (name other : String) : Prop :=
  ∃ artifact, manifest.artifacts.get? name = some artifact ∧ other ∈ artifact.dependencies

/-- A manifest lists for a top-level stack the others that it uses, and nothing else. -/
structure Tree.ListsUses (tree : Tree) (manifest : Manifest) (stack : NodeId)
    (artifact : Manifest.Artifact) : Prop where
  /-- They come in the order in which a walk through the tree first meets them. -/
  inOrder : artifact.dependencies = (tree.usedBy stack).map tree.stackName
  uses : ∀ other, tree.isStack other = true → tree.isNested other = false →
    (tree.stackName other ∈ artifact.dependencies ↔ stack ≠ other ∧ ∃ node leaf producer,
      stack ∈ tree.ancestors node ∧ leaf ∈ tree.consumedBy node ∧
        tree.producer leaf = .ok producer ∧ other ∈ tree.ancestors producer.home)
  once : artifact.dependencies.Nodup
  notItself : tree.stackName stack ∉ artifact.dependencies
  present : ∀ name ∈ artifact.dependencies, manifest.artifacts.contains name = true

/-- What a top-level stack uses are other top-level stacks. -/
theorem Tree.WellFormed.outermost_of_usedBy {tree : Tree} {top other : NodeId}
    (wellFormed : tree.WellFormed) (member : other ∈ tree.usedBy top) :
    other ≠ top ∧ tree.isStack other = true ∧ tree.isNested other = false := by
  rw [Tree.usedBy, List.mem_eraseDups, List.mem_filterMap] at member
  obtain ⟨leaf, _, uses⟩ := member
  rw [Tree.usedFrom?, Option.filter_eq_some_iff, decide_eq_true_eq] at uses
  obtain ⟨producer, _, atTop⟩ := Option.bind_eq_some_iff.mp uses.1
  obtain ⟨isStack, outermost⟩ := wellFormed.outermost_of_topLevelOf? atTop
  exact ⟨uses.2, isStack, wellFormed.isNested_of_outermost isStack outermost⟩

namespace Prepared

variable {app : Application} {bundler : Asset.Bundler} {prepared : Prepared} {stack : NodeId}

/-- The graph of a preparation has the uses of every top-level stack, under their names. -/
structure GraphsUses (tree : Tree) (graph : DeployGraph) : Prop where
  dependencies : ∀ stack, tree.isStack stack = true → tree.isNested stack = false →
    graph.dependenciesOf stack = tree.usedBy stack
  name : ∀ stack, tree.isStack stack = true → tree.isNested stack = false →
    graph.name stack = tree.stackName stack
  acyclic : ∀ stack, ¬Relation.TransGen graph.DependsOn stack stack

/-- What references import for a stack are its uses. -/
theorem dependenciesOf_imports (wellFormed : app.tree.WellFormed) {references : List Reference}
    (found : app.tree.references = .ok references) (isStack : app.tree.isStack stack = true)
    (notNested : app.tree.isNested stack = false) :
    ((stackGraph app.tree).addAll (references.filterMap app.tree.import?)).dependenciesOf stack =
      app.tree.usedBy stack := by
  obtain ⟨perNode, related, same⟩ := bind_eq_ok.mp found
  cases same
  have outermost := wellFormed.outermost_of_not_isNested isStack notNested
  have empty : (stackGraph app.tree).dependenciesOf stack = [].eraseDups :=
    dependenciesOf_stackGraph app.tree stack
  have firsts : SameFirsts ([] ++ app.tree.importedFor stack perNode.flatten) _ :=
    wellFormed.sameFirsts_of_references isStack outermost related
  rw [DeployGraph.dependenciesOf_addAll stack _ empty]
  exact firsts

/-- Dependencies leave the top-level stacks their names. -/
theorem name_addAll_stackGraph (wellFormed : app.tree.WellFormed) (pairs : List (NodeId × NodeId))
    (isStack : app.tree.isStack stack = true) (notNested : app.tree.isNested stack = false) :
    ((stackGraph app.tree).addAll pairs).name stack = app.tree.stackName stack := by
  rw [DeployGraph.name,
    DeployGraph.named_addAll pairs (named_stackGraph wellFormed isStack notNested)]

theorem graphsUses_of_prepare (wellFormed : app.tree.WellFormed)
    (ready : app.prepare bundler = .ok prepared) : GraphsUses app.tree prepared.graph := by
  obtain ⟨references, found, graph, accepted⟩ := graph_of_prepare wellFormed ready
  constructor
  case dependencies =>
    intro stack isStack notNested
    rw [graph, dependenciesOf_imports wellFormed found isStack notNested]
  case name =>
    intro stack isStack notNested
    rw [graph, name_addAll_stackGraph wellFormed _ isStack notNested]
  case acyclic =>
    rw [← DeployGraph.verifyAcyclic_eq_ok (complete_of_prepare wellFormed ready)]
    exact accepted

end Prepared

/-! ### What is listed -/

namespace Assembly

variable {tree : Tree} {prepared : Prepared} {assembly : Assembly} {stack : NodeId}
  {artifact : Manifest.Artifact} {name other : String}
  (wellFormed : tree.WellFormed) (graphs : Prepared.GraphsUses tree prepared.graph)
include wellFormed graphs

/-- An artifact lists the names of what its stack uses. -/
theorem Describes.inOrder (describes : Describes tree prepared stack artifact)
    (isStack : tree.isStack stack = true) (notNested : tree.isNested stack = false) :
    artifact.dependencies = (tree.usedBy stack).map tree.stackName := by
  have dependencies := describes.dependencies
  rw [DeployGraph.dependencyNames] at dependencies
  split at dependencies
  · have listed := Except.ok.inj dependencies
    rw [← listed, graphs.dependencies stack isStack notNested]
    refine List.map_congr_left fun other member => ?_
    obtain ⟨_, isStackOther, notNestedOther⟩ := wellFormed.outermost_of_usedBy member
    exact graphs.name other isStackOther notNestedOther
  · cases dependencies

variable (assembled : prepared.assembly tree = .ok assembly)
include assembled

theorem Describes.listsUses (describes : Describes tree prepared stack artifact)
    (isStack : tree.isStack stack = true) (notNested : tree.isNested stack = false) :
    tree.ListsUses assembly.manifest stack artifact := by
  have inOrder := describes.inOrder wellFormed graphs isStack notNested
  have injective := @stackName_injective _ _ _ wellFormed assembled
  have mem_iff : ∀ other, tree.isStack other = true → tree.isNested other = false →
      (tree.stackName other ∈ artifact.dependencies ↔ other ∈ tree.usedBy stack) := by
    intro other isStackOther notNestedOther
    rw [inOrder, List.mem_map]
    constructor
    · rintro ⟨used, member, sameName⟩
      obtain ⟨_, isStackUsed, notNestedUsed⟩ := wellFormed.outermost_of_usedBy member
      exact injective isStackUsed notNestedUsed isStackOther notNestedOther sameName ▸ member
    · exact fun member => ⟨other, member, rfl⟩
  constructor
  case inOrder => exact inOrder
  case uses =>
    intro other isStackOther notNestedOther
    have outermost := wellFormed.outermost_of_not_isNested isStackOther notNestedOther
    rw [mem_iff other isStackOther notNestedOther, wellFormed.mem_usedBy isStackOther outermost]
  case once =>
    rw [inOrder]
    refine List.Nodup.map_on ?_ (nodup_eraseDups _)
    intro first memberFirst second memberSecond sameName
    obtain ⟨_, isStackFirst, notNestedFirst⟩ := wellFormed.outermost_of_usedBy memberFirst
    obtain ⟨_, isStackSecond, notNestedSecond⟩ := wellFormed.outermost_of_usedBy memberSecond
    exact injective isStackFirst notNestedFirst isStackSecond notNestedSecond sameName
  case notItself =>
    rw [mem_iff stack isStack notNested]
    exact fun member => (wellFormed.outermost_of_usedBy member).1 rfl
  case present =>
    intro name member
    rw [inOrder] at member
    obtain ⟨other, used, rfl⟩ := List.mem_map.mp member
    obtain ⟨_, isStackOther, notNestedOther⟩ := wellFormed.outermost_of_usedBy used
    obtain ⟨its, knownIt, _⟩ :=
      (artifacts_of_assembly wellFormed assembled).1 other isStackOther notNestedOther
    exact SortedMap.contains_iff.mpr ⟨its, knownIt⟩

/-- What is listed for a name are the stacks on which the stack of that name depends. -/
theorem exists_of_dependsOn (depends : assembly.manifest.DependsOn name other) :
    ∃ stack used, tree.isStack stack = true ∧ tree.isNested stack = false ∧
      name = tree.stackName stack ∧ tree.isStack used = true ∧ tree.isNested used = false ∧
      other = tree.stackName used ∧ prepared.graph.DependsOn stack used := by
  obtain ⟨artifact, known, member⟩ := depends
  obtain ⟨stack, isStack, notNested, rfl, describes⟩ :=
    (artifacts_of_assembly wellFormed assembled).2 name artifact known
  rw [describes.inOrder wellFormed graphs isStack notNested] at member
  obtain ⟨used, isUsed, rfl⟩ := List.mem_map.mp member
  obtain ⟨_, isStackUsed, notNestedUsed⟩ := wellFormed.outermost_of_usedBy isUsed
  rw [← graphs.dependencies stack isStack notNested] at isUsed
  exact ⟨stack, used, isStack, notNested, rfl, isStackUsed, notNestedUsed, rfl, isUsed⟩

/-- A chain of names is a chain of stacks. -/
theorem exists_chain_of_dependsOn
    (chain : Relation.TransGen assembly.manifest.DependsOn name other) :
    ∃ stack used, tree.isStack stack = true ∧ tree.isNested stack = false ∧
      name = tree.stackName stack ∧ tree.isStack used = true ∧ tree.isNested used = false ∧
      other = tree.stackName used ∧ Relation.TransGen prepared.graph.DependsOn stack used := by
  induction chain with
  | single edge =>
    obtain ⟨stack, used, isStack, notNested, isName, isStackUsed, notNestedUsed, isOther, depends⟩ :=
      exists_of_dependsOn wellFormed graphs assembled edge
    exact ⟨stack, used, isStack, notNested, isName, isStackUsed, notNestedUsed, isOther,
      .single depends⟩
  | tail _ edge inductionHypothesis =>
    obtain ⟨stack, middle, isStack, notNested, isName, isStackMiddle, notNestedMiddle, rfl,
      before⟩ := inductionHypothesis
    obtain ⟨last, used, isStackLast, notNestedLast, sameName, isStackUsed, notNestedUsed, isOther,
      depends⟩ := exists_of_dependsOn wellFormed graphs assembled edge
    cases stackName_injective wellFormed assembled isStackMiddle notNestedMiddle isStackLast
      notNestedLast sameName
    exact ⟨stack, used, isStack, notNested, isName, isStackUsed, notNestedUsed, isOther,
      before.tail depends⟩

theorem dependsOn_acyclic (name : String) :
    ¬Relation.TransGen assembly.manifest.DependsOn name name := by
  intro cycle
  obtain ⟨stack, used, isStack, notNested, rfl, isStackUsed, notNestedUsed, sameName, chain⟩ :=
    exists_chain_of_dependsOn wellFormed graphs assembled cycle
  cases stackName_injective wellFormed assembled isStack notNested isStackUsed notNestedUsed
    sameName
  exact graphs.acyclic stack chain

end Assembly

namespace Application

/-- What is synthesized is the same whichever algorithms look for cycles. -/
theorem synthesizeBy_eq {app : Application} {algorithms : GraphAlgorithms} (bundler : Asset.Bundler)
    (wellFormed : app.tree.WellFormed) (lawful : algorithms.Lawful) :
    app.synthesizeBy bundler algorithms = app.synthesize bundler := by
  rw [synthesize, synthesizeBy, synthesizeBy, prepareBy_eq bundler wellFormed lawful]
  rfl

/-- The manifest of a synthesized application lists for each top-level stack exactly the others
whose values are consumed in it, each once and as they are first met, and so that no stack has to
be deployed before itself, by whichever algorithms cycles are found. -/
theorem dependencies_are_uses {algorithms : GraphAlgorithms} (lawful : algorithms.Lawful)
    (bundler : Asset.Bundler) (steps : List BuildStep) {assembly : Assembly}
    (synthesized : (build bundler steps).synthesizeBy bundler algorithms = .ok assembly) :
    (∀ stack, (build bundler steps).tree.isStack stack = true →
      (build bundler steps).tree.isNested stack = false → ∃ artifact,
        assembly.manifest.artifacts.get? ((build bundler steps).tree.stackName stack) =
          some artifact ∧
        (build bundler steps).tree.ListsUses assembly.manifest stack artifact) ∧
    (∀ name artifact, assembly.manifest.artifacts.get? name = some artifact → ∃ stack,
      (build bundler steps).tree.isStack stack = true ∧
        (build bundler steps).tree.isNested stack = false ∧
        name = (build bundler steps).tree.stackName stack) ∧
    ∀ name, ¬Relation.TransGen assembly.manifest.DependsOn name name := by
  have wellFormed := wellFormed_build bundler steps
  rw [synthesizeBy_eq bundler wellFormed lawful] at synthesized
  obtain ⟨prepared, ready, assembled⟩ := exists_of_synthesize synthesized
  have graphs := Prepared.graphsUses_of_prepare wellFormed ready
  obtain ⟨described, only⟩ := Assembly.artifacts_of_assembly wellFormed assembled
  refine ⟨fun stack isStack notNested => ?_, fun name artifact known => ?_,
    Assembly.dependsOn_acyclic wellFormed graphs assembled⟩
  · obtain ⟨artifact, known, describes⟩ := described stack isStack notNested
    exact ⟨artifact, known, describes.listsUses wellFormed graphs assembled isStack notNested⟩
  · obtain ⟨stack, isStack, notNested, sameName, _⟩ := only name artifact known
    exact ⟨stack, isStack, notNested, sameName⟩

/-- The second stack reads a resource of the first one, and depends on it. -/
theorem relay_depends :
    ∃ assembly artifact, (build Asset.byPath relay).synthesize Asset.byPath = .ok assembly ∧
      assembly.manifest.artifacts.get? "T" = some artifact ∧ artifact.dependencies = ["S"] := by
  obtain ⟨prepared, assembly, ready, assembled⟩ := relay_synthesizes
  have synthesized : (build Asset.byPath relay).synthesize Asset.byPath = .ok assembly :=
    bind_eq_ok.mpr ⟨prepared, ready, assembled⟩
  have uses : (build Asset.byPath relay).tree.isStack 4 = true ∧
      (build Asset.byPath relay).tree.isNested 4 = false ∧
      (build Asset.byPath relay).tree.stackName 4 = "T" ∧
      ((build Asset.byPath relay).tree.usedBy 4).map (build Asset.byPath relay).tree.stackName =
        ["S"] := by
    decide +kernel
  obtain ⟨isStack, notNested, name, used⟩ := uses
  obtain ⟨artifact, known, listsUses⟩ :=
    (dependencies_are_uses GraphAlgorithms.lawful_plain Asset.byPath relay synthesized).1
      4 isStack notNested
  exact ⟨assembly, artifact, synthesized, name ▸ known, listsUses.inOrder.trans used⟩

end Application

end StackSynth
