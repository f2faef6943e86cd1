/-
This file states that no operation on an application leaves its domain. The operations that have
one look up what is stored under a number, cut chains of stacks and texts, and count arrows down.
What keeps each of them within its domain is said elsewhere: what is stored, where chains begin,
of which characters names are made and which arrows are counted. None of it is asked of whoever
builds an application, so the numbers may be those of no construct and the texts may be any.
-/

import StackSynth.Proofs.Construct.Arena
import StackSynth.Proofs.Deployment.Lowering
import StackSynth.Proofs.Synthesis.Dependencies
import StackSynth.Proofs.Wiring.Slicing

namespace StackSynth.Application

open Naming Outcome

/-- Building an application, asking it, preparing it and synthesizing it all come without a fault
to what they come to. -/
structure Faultless (app : Application) (algorithms : GraphAlgorithms) : Prop where
  /-- The steps so far have stored what the tree says, and whatever is added is stored, too. -/
  stored : app.tree.Stored
  adds : ∀ parent id construct, app.tree.arena.add parent id construct =
    .ok ((app.tree.add parent id construct).map fun added => (added.1, added.2.arena))
  stackNames : ∀ stack, app.tree.arena.stackName stack = .ok (app.tree.stackName stack)
  /-- Between any two numbers a route is found or refused. -/
  routes : ∀ home consumer,
    app.tree.guardedRoute home consumer = .ok (app.tree.route home consumer)
  /-- Names are made of any paths, attributes, values and hashes. -/
  ids : ∀ path, guardedUniqueId path = .ok (uniqueId path)
  outputs : ∀ path attr, guardedOutputName path attr = .ok (outputName path attr)
  parameters : ∀ path attr, guardedParameterName path attr = .ok (parameterName path attr)
  exported : ∀ value, guardedExportOutputName value = .ok (exportOutputName value)
  assetParameters : ∀ hash slot,
    guardedAssetParameterName hash slot = .ok (assetParameterName hash slot)
  manifests : ∀ manifest : Manifest,
    guardedShortTextHash manifest.toJson.compact = .ok manifest.hash
  /-- The graph that a preparation checks, and may refuse, is checked, and so is any other. -/
  checked : ∀ {bundler started prepared}, Prepared.start app = .ok started →
    (Prepared.nestedStacks app.tree).foldlM (Prepared.embed app.tree bundler) started =
      .ok prepared → prepared.graph.Faultless algorithms
  prepared : ∀ {bundler prepared}, app.prepare bundler = .ok prepared →
    prepared.graph.Faultless algorithms
  graphs : ∀ calls : List GraphCall, (DeployGraph.ofCalls calls).Faultless algorithms

variable {algorithms : GraphAlgorithms}

/-- No operation on an application faults, whatever was tried with it. -/
theorem faultless_assembled (lawful : algorithms.Lawful)
    (history : List (Asset.Bundler × BuildStep)) : (assembled history).Faultless algorithms := by
  have wellFormed := (kept_assembled history).wellFormed
  constructor
  case stored => exact Tree.stored_assembled history
  case adds => exact Tree.add_arena _
  case stackNames => exact Tree.stackName_arena _
  case routes => exact Tree.guardedRoute_eq _
  case ids => exact guardedUniqueId_eq
  case outputs => exact guardedOutputName_eq
  case parameters => exact guardedParameterName_eq
  case exported => exact guardedExportOutputName_eq
  case assetParameters => exact fun hash slot => guardedUniqueId_eq _
  case manifests => exact fun manifest => guardedShortTextHash_eq _
  case checked =>
    exact fun begun run => (Prepared.complete_of_run wellFormed begun run).faultless lawful
  case prepared =>
    exact fun ready => (Prepared.complete_of_prepare wellFormed ready).faultless lawful
  case graphs => exact fun calls => (DeployGraph.registers_ofCalls calls).complete.faultless lawful

/-- Steps with numbers of no construct and letters of several bytes. Only the second one is
refused. -/
def strangeSteps : List (Asset.Bundler × BuildStep) :=
  [.topLevelStack 0 "Ωmega" ⟨some "Omega", .unspecified⟩, .nestedStack 99 "Nowhere",
    .group 1 "Éé", .nestedStack 2 "日本",
    .resource 3 "Bücket" ⟨"Bucket", [("Name", .getAtt 77 "Ärn")], none⟩].map (Asset.byPath, ·)

theorem strangeSteps_faultless :
    (assembled strangeSteps).tree.size = 5 ∧ (assembled strangeSteps).Faultless .plain :=
  ⟨by decide +kernel, faultless_assembled GraphAlgorithms.lawful_plain strangeSteps⟩

end StackSynth.Application
