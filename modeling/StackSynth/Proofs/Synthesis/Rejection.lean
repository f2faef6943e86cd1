/-
This file proves that an application whose references are wired and whose nested stacks are
embedded is refused exactly for what cannot be deployed. The check looks at the dependencies that
wiring has left and at nothing else. These are the uses of top-level stacks: one for every value
that is at home in one stack and consumed in another, however deep. So an application is refused if
a stack uses one that is known to be deployed elsewhere, or if stacks use each other in a circle.
-/

import StackSynth.Proofs.Concurrence
import StackSynth.Proofs.Deployment.Renumbering
import StackSynth.Proofs.Synthesis.Uses

namespace StackSynth

open Outcome Relation

/-! ### Environments -/

/-- Two values of one axis of environments are both fixed, and to different ones. -/
def Environment.Apart (first second : Option String) : Prop :=
  ∃ one other, first = some one ∧ second = some other ∧ one ≠ other

theorem Environment.differ_iff {first second : Option String} :
    differ first second = true ↔ Apart first second := by
  cases first <;> cases second <;> simp [differ, Apart]

theorem Environment.conflictsWith_iff {first second : Environment} :
    first.conflictsWith second = true ↔
      Apart first.account second.account ∨ Apart first.region second.region := by
  rw [conflictsWith, Bool.or_eq_true, differ_iff, differ_iff]

namespace Tree

/-- A value that is at home in one top-level stack, or in stacks inside it, is consumed in
another one. -/
def Uses (tree : Tree) (stack other : NodeId) : Prop :=
  stack ∈ tree.topLevelStacks ∧ other ∈ tree.topLevelStacks ∧ stack ≠ other ∧
    ∃ node leaf producer, stack ∈ tree.ancestors node ∧ leaf ∈ tree.consumedBy node ∧
      tree.producer leaf = .ok producer ∧ other ∈ tree.ancestors producer.home

/-- A top-level stack is declared to be deployed to an environment. -/
def DeployedTo (tree : Tree) (stack : NodeId) (environment : Environment) : Prop :=
  ∃ id parent name, tree.get? stack = some ⟨id, parent, .topLevelStack ⟨name, environment⟩⟩

/-- A top-level stack uses another one from which it is known to be deployed apart. -/
def UsesFromAfar (tree : Tree) (stack other : NodeId) : Prop :=
  tree.Uses stack other ∧ ∃ here there, tree.DeployedTo stack here ∧ tree.DeployedTo other there ∧
    (Environment.Apart here.account there.account ∨ Environment.Apart here.region there.region)

variable {tree : Tree} {stack other : NodeId} {environment : Environment}
  (wellFormed : tree.WellFormed)
include wellFormed

/-- An environment is declared for every top-level stack. -/
theorem WellFormed.exists_deployedTo (topLevel : stack ∈ tree.topLevelStacks) :
    ∃ environment, tree.DeployedTo stack environment := by
  obtain ⟨isStack, notNested⟩ := wellFormed.mem_topLevelStacks.mp topLevel
  rw [Tree.isStack] at isStack
  rw [Tree.isNested] at notNested
  cases known : tree.get? stack with
  | none => simp [known] at isStack
  | some node =>
    obtain ⟨id, parent, construct⟩ := node
    cases construct with
    | topLevelStack options => exact ⟨options.environment, id, parent, options.name, known⟩
    | nestedStack => simp [known, Construct.isNestedStack] at notNested
    | _ => simp [known, Construct.isStack] at isStack

theorem WellFormed.environment_of_deployedTo (declared : tree.DeployedTo stack environment) :
    tree.environment stack = .ok environment := by
  obtain ⟨id, parent, name, known⟩ := declared
  have isStack : tree.isStack stack = true := by rw [Tree.isStack, known]; rfl
  have notNested : tree.isNested stack = false := by rw [Tree.isNested, known]; rfl
  have outermost := wellFormed.outermost_of_not_isNested isStack notNested
  rw [Tree.environment, wellFormed.topLevelOf?_of_outermost isStack outermost]
  dsimp only
  rw [known]

/-- A top-level stack is deployed to one environment. -/
theorem WellFormed.deployedTo_unique {another : Environment}
    (declared : tree.DeployedTo stack environment) (again : tree.DeployedTo stack another) :
    environment = another :=
  Except.ok.inj ((wellFormed.environment_of_deployedTo declared).symm.trans
    (wellFormed.environment_of_deployedTo again))

end Tree

namespace Prepared

variable {app : Application} {bundler : Asset.Bundler} {started prepared : Prepared}
  {tree : Tree} {graph : DeployGraph} {stack other : NodeId}

/-- A graph has the uses of the top-level stacks as its dependencies. -/
structure Depends (tree : Tree) (graph : DeployGraph) : Prop where
  complete : graph.Complete
  dependsOn : ∀ {stack other}, graph.DependsOn stack other ↔ tree.Uses stack other

theorem depends_of_run (wellFormed : app.tree.WellFormed) (begun : start app = .ok started)
    (run : (nestedStacks app.tree).foldlM (embed app.tree bundler) started = .ok prepared) :
    Depends app.tree prepared.graph := by
  obtain ⟨references, found, graph⟩ := graph_of_run wellFormed begun run
  refine ⟨complete_of_run wellFormed begun run, fun {stack other} => ?_⟩
  have amongTopLevel : stack ∈ app.tree.topLevelStacks →
      (prepared.graph.DependsOn stack other ↔ app.tree.Uses stack other) := by
    intro topLevel
    obtain ⟨isStack, notNested⟩ := wellFormed.mem_topLevelStacks.mp topLevel
    rw [DeployGraph.DependsOn, graph, dependenciesOf_imports wellFormed found isStack notNested,
      Tree.Uses, and_iff_right topLevel]
    constructor
    · intro used
      obtain ⟨_, isStackOther, notNestedOther⟩ := wellFormed.outermost_of_usedBy used
      have outermost := wellFormed.outermost_of_not_isNested isStackOther notNestedOther
      exact ⟨wellFormed.mem_topLevelStacks.mpr ⟨isStackOther, notNestedOther⟩,
        (wellFormed.mem_usedBy isStackOther outermost).mp used⟩
    · rintro ⟨topLevelOther, consumed⟩
      obtain ⟨isStackOther, notNestedOther⟩ := wellFormed.mem_topLevelStacks.mp topLevelOther
      have outermost := wellFormed.outermost_of_not_isNested isStackOther notNestedOther
      exact (wellFormed.mem_usedBy isStackOther outermost).mpr consumed
  refine ⟨fun depends => (amongTopLevel ?_).mp depends, fun uses => (amongTopLevel uses.1).mpr uses⟩
  -- only what references import was added, and they are imported into top-level stacks
  rw [graph, DeployGraph.dependsOn_addAll, DeployGraph.DependsOn, dependenciesOf_stackGraph] at depends
  obtain ⟨reference, _, imported⟩ := List.mem_filterMap.mp (depends.resolve_left List.not_mem_nil)
  rw [Tree.import?] at imported
  split at imported
  · rename_i importer exporter goal _
    split at imported
    · cases imported
    · cases imported
      obtain ⟨isStack, outermost⟩ := wellFormed.outermost_of_topLevelOf? goal
      exact wellFormed.mem_topLevelStacks.mpr
        ⟨isStack, wellFormed.isNested_of_outermost isStack outermost⟩
  · cases imported

/-! ### The check -/

/-- Only a use from afar is refused for its environments. -/
theorem checkEnvironments_of_uses (graph : DeployGraph) (wellFormed : tree.WellFormed)
    (uses : tree.Uses stack other) :
    (¬tree.UsesFromAfar stack other ∧ checkEnvironments tree graph stack other = .ok ()) ∨
      (tree.UsesFromAfar stack other ∧ ∃ importerAddress exporterAddress,
        checkEnvironments tree graph stack other = .error (.crossEnvironment (graph.name stack)
          importerAddress (graph.name other) exporterAddress)) := by
  obtain ⟨here, isHere⟩ := wellFormed.exists_deployedTo uses.1
  obtain ⟨there, isThere⟩ := wellFormed.exists_deployedTo uses.2.1
  have checked : checkEnvironments tree graph stack other =
      if here.conflictsWith there then .error (.crossEnvironment (graph.name stack) here.address
        (graph.name other) there.address) else .ok () := by
    rw [checkEnvironments, wellFormed.environment_of_deployedTo isHere,
      wellFormed.environment_of_deployedTo isThere]
    rfl
  by_cases conflict : here.conflictsWith there = true
  · refine .inr ⟨⟨uses, here, there, isHere, isThere, Environment.conflictsWith_iff.mp conflict⟩,
      here.address, there.address, ?_⟩
    rw [checked, if_pos conflict]
  · refine .inl ⟨fun fromAfar => conflict ?_, by rw [checked, if_neg conflict]⟩
    obtain ⟨_, declared, declaredToo, isDeclared, isDeclaredToo, apart⟩ := fromAfar
    cases wellFormed.deployedTo_unique isHere isDeclared
    cases wellFormed.deployedTo_unique isThere isDeclaredToo
    exact Environment.conflictsWith_iff.mpr apart

/-- Dependencies are refused for their environments as soon as one of them is. -/
theorem checkGraph_of_usesFromAfar (wellFormed : tree.WellFormed) (depends : Depends tree graph)
    (fromAfar : tree.UsesFromAfar stack other) :
    ∃ importer importerAddress exporter exporterAddress, checkGraph tree graph =
      .error (.crossEnvironment importer importerAddress exporter exporterAddress) := by
  have isEdge : (stack, other) ∈ graph.edges :=
    DeployGraph.mem_edges.mpr (depends.dependsOn.mpr fromAfar.1)
  cases checked : graph.edges.forM (fun edge => checkEnvironments tree graph edge.1 edge.2) with
  | ok done =>
    have passed := forM_eq_ok.mp checked (stack, other) isEdge
    rcases checkEnvironments_of_uses graph wellFormed fromAfar.1 with ⟨near, _⟩ | ⟨_, _, _, refused⟩
    · exact absurd fromAfar near
    · cases passed.symm.trans refused
  | error cause =>
    obtain ⟨edge, isListed, refused⟩ := exists_of_forM_eq_error checked
    have uses := depends.dependsOn.mp (DeployGraph.mem_edges.mp isListed)
    rcases checkEnvironments_of_uses graph wellFormed uses with
      ⟨_, passed⟩ | ⟨_, importerAddress, exporterAddress, itself⟩
    · cases passed.symm.trans refused
    · cases refused.symm.trans itself
      exact ⟨_, importerAddress, _, exporterAddress, by rw [checkGraph, checkGraphBy, checked]; rfl⟩

/-- Without uses from afar only cycles remain to be looked for. -/
theorem checkGraph_of_near (wellFormed : tree.WellFormed) (depends : Depends tree graph)
    (near : ¬∃ stack other, tree.UsesFromAfar stack other) :
    checkGraph tree graph = graph.verifyAcyclic.mapError .deploy := by
  have passed : graph.edges.forM (fun edge => checkEnvironments tree graph edge.1 edge.2) =
      .ok () := by
    refine forM_eq_ok.mpr fun edge isListed => ?_
    have uses := depends.dependsOn.mp (DeployGraph.mem_edges.mp isListed)
    rcases checkEnvironments_of_uses graph wellFormed uses with
      ⟨_, passed⟩ | ⟨fromAfar, _⟩
    · exact passed
    · exact absurd ⟨edge.1, edge.2, fromAfar⟩ near
  rw [checkGraph, checkGraphBy, passed]
  rfl

end Prepared

namespace Application

variable {app : Application} {bundler : Asset.Bundler} {started prepared : Prepared}

/-- What becomes of an application whose nested stacks are embedded. -/
inductive Decided (app : Application) (bundler : Asset.Bundler) (prepared : Prepared) : Prop where
  | fromAfar (uses : ∃ stack other, app.tree.UsesFromAfar stack other)
    (refused : ∃ importer importerAddress exporter exporterAddress, app.prepare bundler =
      .error (.crossEnvironment importer importerAddress exporter exporterAddress))
  | inCircle (near : ¬∃ stack other, app.tree.UsesFromAfar stack other)
    (cycle : ∃ stack, TransGen app.tree.Uses stack stack)
    (refused : ∃ members, app.prepare bundler = .error (.deploy (.cycle members)))
  | deployable (near : ¬∃ stack other, app.tree.UsesFromAfar stack other)
    (acyclic : ¬∃ stack, TransGen app.tree.Uses stack stack)
    (ready : app.prepare bundler = .ok prepared)

theorem decided_of_run (wellFormed : app.tree.WellFormed)
    (begun : Prepared.start app = .ok started)
    (run : (Prepared.nestedStacks app.tree).foldlM (Prepared.embed app.tree bundler) started =
      .ok prepared) : app.Decided bundler prepared := by
  have depends := Prepared.depends_of_run wellFormed begun run
  have sameUses : prepared.graph.DependsOn = app.tree.Uses :=
    funext fun _ => funext fun _ => propext depends.dependsOn
  have prepares : app.prepare bundler =
      Prepared.checkGraph app.tree prepared.graph >>= fun _ => .ok prepared := by
    rw [prepare, prepareBy, begun]
    show ((Prepared.nestedStacks app.tree).foldlM (Prepared.embed app.tree bundler) started >>=
      _) = _
    rw [run]
    rfl
  by_cases near : ∃ stack other, app.tree.UsesFromAfar stack other
  · obtain ⟨stack, other, fromAfar⟩ := near
    obtain ⟨importer, importerAddress, exporter, exporterAddress, refused⟩ :=
      Prepared.checkGraph_of_usesFromAfar wellFormed depends fromAfar
    exact .fromAfar ⟨stack, other, fromAfar⟩
      ⟨importer, importerAddress, exporter, exporterAddress, by rw [prepares, refused]; rfl⟩
  · rw [Prepared.checkGraph_of_near wellFormed depends near] at prepares
    by_cases cycle : ∃ stack, TransGen app.tree.Uses stack stack
    · obtain ⟨stack, chain⟩ := cycle
      have refused := DeployGraph.verifyAcyclicBy_eq_error depends.complete
        GraphAlgorithms.lawful_plain (sameUses ▸ chain)
      refine .inCircle near ⟨stack, chain⟩
        ⟨(prepared.graph.onCycles .plain).map prepared.graph.name, ?_⟩
      rw [prepares, DeployGraph.verifyAcyclic, refused]
      rfl
    · have accepted : prepared.graph.verifyAcyclic = .ok () := by
        rw [DeployGraph.verifyAcyclic_eq_ok depends.complete, sameUses, ← not_exists]
        exact cycle
      refine .deployable near cycle ?_
      rw [prepares, accepted]
      rfl

/-- An application whose references are wired and whose nested stacks are embedded is refused for
its environments exactly if a top-level stack uses another one that is known to be deployed
elsewhere, otherwise for a cycle exactly if top-level stacks use each other in one, by whichever
algorithms it is found, and is prepared otherwise. -/
theorem refused_iff_undeployable {algorithms : GraphAlgorithms} (lawful : algorithms.Lawful)
    (bundler : Asset.Bundler) (steps : List BuildStep)
    (begun : Prepared.start (build bundler steps) = .ok started)
    (run : (Prepared.nestedStacks (build bundler steps).tree).foldlM
      (Prepared.embed (build bundler steps).tree bundler) started = .ok prepared) :
    ((∃ importer importerAddress exporter exporterAddress,
      (build bundler steps).prepareBy bundler algorithms =
        .error (.crossEnvironment importer importerAddress exporter exporterAddress)) ↔
      ∃ stack other, (build bundler steps).tree.UsesFromAfar stack other) ∧
    ((¬∃ stack other, (build bundler steps).tree.UsesFromAfar stack other) →
      ((∃ members, (build bundler steps).prepareBy bundler algorithms =
        .error (.deploy (.cycle members))) ↔
        ∃ stack, TransGen (build bundler steps).tree.Uses stack stack) ∧
      ((¬∃ stack, TransGen (build bundler steps).tree.Uses stack stack) →
        (build bundler steps).prepareBy bundler algorithms = .ok prepared)) := by
  have wellFormed := wellFormed_build bundler steps
  rw [prepareBy_eq bundler wellFormed lawful]
  cases decided_of_run wellFormed begun run with
  | fromAfar uses refused =>
    exact ⟨iff_of_true refused uses, fun near => absurd uses near⟩
  | inCircle near cycle refused =>
    obtain ⟨members, refused⟩ := refused
    simp [near, cycle, refused]
  | deployable near acyclic ready =>
    simp [near, acyclic, ready]

/-- Two stacks for different accounts, where a nested stack of the second one reads a resource that
lies in a nested stack of the first one. -/
def distantRelay : List BuildStep :=
  [.topLevelStack 0 "S" ⟨none, ⟨some "1", none⟩⟩, .nestedStack 1 "N",
    .resource 2 "A" ⟨"Bucket", [], none⟩, .topLevelStack 0 "T" ⟨none, ⟨some "2", some "r"⟩⟩,
    .nestedStack 4 "M", .resource 5 "B" ⟨"Bucket", [("Source", .getAtt 3 "Arn")], none⟩]

theorem distantRelay_usesFromAfar :
    (build Asset.byPath distantRelay).tree.UsesFromAfar 4 1 := by
  have wellFormed := wellFormed_build Asset.byPath distantRelay
  have known : (build Asset.byPath distantRelay).tree.topLevelStacks = [1, 4] ∧
      1 ∈ (build Asset.byPath distantRelay).tree.usedBy 4 ∧
      ((build Asset.byPath distantRelay).tree.environment 4).toOption =
        some ⟨some "2", some "r"⟩ ∧
      ((build Asset.byPath distantRelay).tree.environment 1).toOption = some ⟨some "1", none⟩ := by
    decide +kernel
  obtain ⟨topLevel, used, isHere, isThere⟩ := known
  have isTop : ∀ stack ∈ [1, 4],
      stack ∈ (build Asset.byPath distantRelay).tree.topLevelStacks := topLevel ▸ fun _ => id
  obtain ⟨isStack, notNested⟩ := wellFormed.mem_topLevelStacks.mp (isTop 1 (by decide))
  have outermost := wellFormed.outermost_of_not_isNested isStack notNested
  obtain ⟨here, declared⟩ := wellFormed.exists_deployedTo (isTop 4 (by decide))
  obtain ⟨there, declaredToo⟩ := wellFormed.exists_deployedTo (isTop 1 (by decide))
  cases (wellFormed.environment_of_deployedTo declared).symm.trans (eq_ok_of_toOption isHere)
  cases (wellFormed.environment_of_deployedTo declaredToo).symm.trans (eq_ok_of_toOption isThere)
  exact ⟨⟨isTop 4 (by decide), isTop 1 (by decide),
    (wellFormed.mem_usedBy isStack outermost).mp used⟩, _, _, declared, declaredToo,
    .inl ⟨"2", "1", rfl, rfl, by decide⟩⟩

/-- Both stacks are wired and rendered, and then refused. -/
theorem distantRelay_refused : ∃ started prepared,
    Prepared.start (build Asset.byPath distantRelay) = .ok started ∧
      (Prepared.nestedStacks (build Asset.byPath distantRelay).tree).foldlM
        (Prepared.embed (build Asset.byPath distantRelay).tree Asset.byPath) started =
          .ok prepared ∧
      ∃ importer importerAddress exporter exporterAddress,
        (build Asset.byPath distantRelay).prepare Asset.byPath =
          .error (.crossEnvironment importer importerAddress exporter exporterAddress) := by
  have embeds : (Prepared.start (build Asset.byPath distantRelay) >>= fun started =>
      (Prepared.nestedStacks (build Asset.byPath distantRelay).tree).foldlM
        (Prepared.embed (build Asset.byPath distantRelay).tree Asset.byPath) started).isOk =
          true := by
    decide +kernel
  obtain ⟨prepared, embedded⟩ := exists_of_isOk embeds
  obtain ⟨started, begun, run⟩ := bind_eq_ok.mp embedded
  obtain ⟨foreign, _⟩ :=
    refused_iff_undeployable GraphAlgorithms.lawful_plain Asset.byPath distantRelay begun run
  exact ⟨started, prepared, begun, run, foreign.mpr ⟨4, 1, distantRelay_usesFromAfar⟩⟩

end Application

end StackSynth
