/-
This file proves that synthesis never finds its own preparation incomplete. References are looked
for in one walk over the whole tree, while templates are rendered stack by stack, from the deepest
up, against a table that is still growing. The two agree: whenever a template is rendered, every
leaf that it asks for is the identity of the stack, at home in it or wired into it, and every
nested stack in it has an address. So whatever goes wrong in a synthesis, it is never a value that
was not wired or a nested stack that is not yet there.
-/

import StackSynth.Proofs.Synthesis.Preparation
import StackSynth.Synthesis.Assembly

namespace StackSynth

open Outcome

variable {tree : Tree}

/-! ### Errors of looking for references -/

namespace Tree

theorem referenceBetween_failsOnly (leaf : Leaf) (consumer stack : NodeId) :
    FailsOnly (¬·.IsUnwired) (tree.referenceBetween leaf consumer stack) := by
  rw [referenceBetween]
  split
  · exact .of_ok _
  · refine .bind (producer_failsOnly leaf) fun producer _ => ?_
    split <;> exact .of_ok _

theorem referencesAmong_failsOnly (consumer stack : NodeId) (leaves : List Leaf) :
    ∀ seen, FailsOnly (¬·.IsUnwired) (tree.referencesAmong consumer stack seen leaves) := by
  induction leaves with
  | nil => exact fun _ => .of_ok _
  | cons head rest inductionHypothesis =>
    intro seen
    rw [referencesAmong]
    split
    · exact inductionHypothesis seen
    · refine .bind (referenceBetween_failsOnly head consumer stack) fun between _ => ?_
      cases between with
      | none => exact inductionHypothesis seen
      | some reference => exact .bind (inductionHypothesis (head :: seen)) fun _ _ => .of_ok _

theorem references_failsOnly : FailsOnly (¬·.IsUnwired) tree.references := by
  refine .bind (.mapM fun node _ => ?_) fun _ _ => .of_ok _
  rw [referencesOf]
  split
  · exact .of_ok _
  · split
    · exact referencesAmong_failsOnly _ _ _ _
    · exact .of_error id

/-! ### Errors of wiring -/

theorem requireChain_failsOnly (stack : NodeId) :
    FailsOnly (¬·.IsUnwired) (tree.requireChain stack) := by
  rw [requireChain]
  split
  · exact .of_ok _
  · exact .of_error id

theorem route_failsOnly (home goal : NodeId) :
    FailsOnly (¬·.IsUnwired) (tree.route home goal) := by
  rw [route]
  split
  · exact .of_ok _
  · refine .bind (requireChain_failsOnly home) fun _ _ =>
      .bind (requireChain_failsOnly goal) fun _ _ => ?_
    split
    · split
      · exact .of_ok _
      · split
        · exact .of_error id
        · exact .of_ok _
    · exact .of_error id

theorem beyond_failsOnly (passage : Passage) (crossing : Crossing) :
    FailsOnly (¬·.IsUnwired) (tree.beyond passage crossing) := by
  cases crossing with
  | out stack =>
    exact .bind (.of_change _ fun _ => id) fun _ _ =>
      .bind (.of_change _ fun _ => id) fun _ _ => .of_ok _
  | across exporter importer => exact .of_ok _
  | into stack => exact .of_ok _

theorem journey_failsOnly (crossings : List Crossing) :
    ∀ passage, FailsOnly (¬·.IsUnwired) (tree.journey passage crossings) := by
  induction crossings with
  | nil => exact fun _ => .of_ok _
  | cons crossing rest inductionHypothesis =>
    exact fun passage => .bind (beyond_failsOnly passage crossing) fun behind _ =>
      .bind (inductionHypothesis behind) fun _ _ => .of_ok _

theorem delivery_failsOnly (producer : Producer) (consumer : NodeId) :
    FailsOnly (¬·.IsUnwired) (tree.delivery producer consumer) :=
  .bind (route_failsOnly producer.home consumer) fun _ _ =>
    .bind (journey_failsOnly _ _) fun _ _ => .of_ok _

end Tree

theorem Wiring.wireAll_failsOnly (references : List Reference) :
    ∀ wiring : Wiring, FailsOnly (¬·.IsUnwired) (wiring.wireAll tree references) := by
  induction references with
  | nil => exact fun _ => .of_ok _
  | cons reference rest inductionHypothesis =>
    intro wiring
    refine .bind ?_ fun _ _ => .bind (inductionHypothesis _) fun _ _ => .of_ok _
    have delivers : FailsOnly _ (tree.delivery reference.producer reference.consumerStack) :=
      Tree.delivery_failsOnly _ _
    rw [wire_eq]
    cases delivered : tree.delivery reference.producer reference.consumerStack with
    | ok delivery => exact .of_ok _
    | error cause => exact .of_error (delivers cause delivered)

/-! ### Errors of preparing -/

namespace Prepared

variable {app : Application} {bundler : Asset.Bundler} {prepared : Prepared}

theorem start_failsOnly (app : Application) : FailsOnly (¬·.IsIncomplete) (start app) :=
  .bind (.mapError Tree.references_failsOnly) fun _ _ =>
    .bind (.mapError (Wiring.wireAll_failsOnly _ _)) fun _ _ => .of_ok _

/-- A nested stack that is rendered after those in it is embedded without anything missing. -/
theorem embed_failsOnly (wellFormed : tree.WellFormed) {stack : NodeId}
    (isNested : tree.isNested stack = true) (complete : prepared.rendering.Complete tree stack) :
    FailsOnly (¬·.IsIncomplete) (embed tree bundler prepared stack) := by
  have isStack := Tree.isStack_of_isNested isNested
  obtain ⟨parent, around⟩ := (wellFormed.isNested_iff isStack).mp isNested
  obtain ⟨top, outermost⟩ := wellFormed.exists_topLevelOf? isStack
  refine .bind complete.template_failsOnly fun template _ =>
    .bind (.of_change _ fun _ => id) fun hash _ => ?_
  rw [outermost, around]
  refine .bind (.mapError (Tree.referencesAmong_failsOnly _ _ _ _)) fun references _ => ?_
  exact .bind (.bind (.mapError (Wiring.wireAll_failsOnly _ _)) fun _ _ => .of_ok _)
    fun _ _ => .of_ok _

theorem checkGraph_failsOnly (graph : DeployGraph) :
    FailsOnly (¬·.IsIncomplete) (checkGraph tree graph) := by
  refine .bind (.forM fun edge _ => ?_) fun _ _ => .of_change _ fun _ => id
  refine .bind (.of_change _ fun _ => id) fun _ _ =>
    .bind (.of_change _ fun _ => id) fun _ _ => ?_
  split
  · exact .of_error id
  · exact .of_ok _

end Prepared

/-! ### Whole runs -/

/-- A template that synthesis renders, with the state in which it is rendered: a nested stack when
its turn comes, a top-level stack when all is prepared. -/
inductive RenderCall (app : Application) (bundler : Asset.Bundler) : NodeId → Rendering → Prop where
  | nested {before after : List NodeId} {stack : NodeId} {started prepared : Prepared} :
    Prepared.nestedStacks app.tree = before ++ stack :: after → Prepared.start app = .ok started →
    before.foldlM (Prepared.embed app.tree bundler) started = .ok prepared →
    RenderCall app bundler stack prepared.rendering
  | topLevel {stack : NodeId} {prepared : Prepared} :
    stack ∈ app.tree.topLevelStacks → app.prepare bundler = .ok prepared →
    RenderCall app bundler stack prepared.rendering

theorem RenderCall.complete {app : Application} {bundler : Asset.Bundler} {stack : NodeId}
    {rendering : Rendering} (call : RenderCall app bundler stack rendering)
    (wellFormed : app.tree.WellFormed) : rendering.Complete app.tree stack := by
  cases call with
  | @nested before after stack started prepared split start run =>
    have isNested := Prepared.isNested_of_turn wellFormed split
    exact (Prepared.sound_of_foldlM wellFormed split start run).complete wellFormed
      (Tree.isStack_of_isNested isNested)
      (fun nested isNested around => Prepared.child_mem_before split wellFormed isNested around)
  | @topLevel stack prepared listed ready =>
    have isStack := (wellFormed.mem_topLevelStacks.mp listed).1
    exact (Prepared.sound_of_prepare wellFormed ready).complete wellFormed isStack
      (fun nested isNested _ => (Prepared.mem_nestedStacks wellFormed).mpr isNested)

namespace Application

variable {app : Application} {bundler : Asset.Bundler}

theorem prepare_failsOnly (wellFormed : app.tree.WellFormed) :
    FailsOnly (¬·.IsIncomplete) (app.prepare bundler) := by
  refine .bind (Prepared.start_failsOnly app) fun started start => .bind (.foldlM ?_) fun _ _ =>
    .bind (Prepared.checkGraph_failsOnly _) fun _ _ => .of_ok _
  intro before stack after state split run
  have isNested := Prepared.isNested_of_turn wellFormed split
  have call : RenderCall app bundler stack state.rendering := .nested split start run
  exact Prepared.embed_failsOnly wellFormed isNested (call.complete wellFormed)

theorem assembly_failsOnly (wellFormed : app.tree.WellFormed) {prepared : Prepared}
    (ready : app.prepare bundler = .ok prepared) :
    FailsOnly (¬·.IsIncomplete) (prepared.assembly app.tree) := by
  refine .bind (.foldlM ?_) fun _ _ => .of_ok _
  intro before stack after assembly split _
  have listed : stack ∈ app.tree.topLevelStacks := by
    rw [split]
    exact List.mem_append_right _ List.mem_cons_self
  have complete := (RenderCall.topLevel listed ready).complete wellFormed
  exact .check id (.bind complete.template_failsOnly fun _ _ =>
    .bind (.of_change _ fun _ => id) fun _ _ =>
      .bind (.of_change _ fun _ => id) fun _ _ => .of_ok _)

/-- Synthesis never fails for a value that was not wired or a nested stack that has no address or
no place, and each template it renders finds all that it asks for. -/
theorem synthesis_finds_everything (bundler : Asset.Bundler) (steps : List BuildStep) :
    (∀ error, (build bundler steps).synthesize bundler = .error error → ¬error.IsIncomplete) ∧
      ∀ stack rendering, RenderCall (build bundler steps) bundler stack rendering →
        rendering.Complete (build bundler steps).tree stack := by
  have wellFormed := wellFormed_build bundler steps
  have neverIncomplete : FailsOnly (¬·.IsIncomplete) ((build bundler steps).synthesize bundler) :=
    .bind (prepare_failsOnly wellFormed) fun prepared ready => assembly_failsOnly wellFormed ready
  exact ⟨neverIncomplete, fun stack rendering call => call.complete wellFormed⟩

/-- A stack with a nested stack that reads a resource of it. -/
def nestedReader : List BuildStep :=
  [.topLevelStack 0 "S" ⟨none, .unspecified⟩, .resource 1 "A" ⟨"Bucket", [], none⟩,
    .nestedStack 1 "N", .resource 3 "B" ⟨"Bucket", [("Source", .getAtt 2 "Arn")], none⟩]

/-- When the nested stack is rendered, the value that it reads has been wired into it. -/
theorem nestedReader_finds_everything :
    ∃ prepared, Prepared.start (build Asset.byPath nestedReader) = .ok prepared ∧
      prepared.rendering.Complete (build Asset.byPath nestedReader).tree 3 := by
  have starts : (Prepared.start (build Asset.byPath nestedReader)).isOk = true := by
    decide +kernel
  have single : Prepared.nestedStacks (build Asset.byPath nestedReader).tree = [3] := by
    decide +kernel
  obtain ⟨prepared, start⟩ := exists_of_isOk starts
  have call : RenderCall (build Asset.byPath nestedReader) Asset.byPath 3 prepared.rendering :=
    @RenderCall.nested _ _ [] [] 3 prepared prepared single start rfl
  exact ⟨prepared, start,
    (synthesis_finds_everything Asset.byPath nestedReader).2 3 prepared.rendering call⟩

end Application

end StackSynth
