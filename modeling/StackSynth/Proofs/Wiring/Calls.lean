/-
This file follows wiring through calls, in any number and order. A call fails only where there is no
route, and then it has changed nothing, since a value can cross every border of a route. So calls,
some of which may fail, leave what those of them leave that do not fail; and whatever a preparation
wires, it wires by such calls.
-/

import StackSynth.Proofs.Synthesis.Dependencies
import StackSynth.Proofs.Wiring.Noting

namespace StackSynth

open Outcome

variable {tree : Tree} {wiring after : Wiring} {reference : Reference} {crossing : Crossing}
  {start goal : NodeId}

namespace Tree

/-! ### References -/

/-- A reference that is found between its leaf and the stack that consumes it. -/
def HasReference (tree : Tree) (reference : Reference) : Prop :=
  ∃ leaf consumer stack, tree.referenceBetween leaf consumer stack = .ok (some reference)

theorem hasReference_iff : tree.HasReference reference ↔ reference.Proper tree := by
  constructor
  · rintro ⟨leaf, consumer, stack, found⟩
    exact (proper_of_referenceBetween found).1
  · intro proper
    exact ⟨_, _, _, referenceBetween_of_proper proper⟩

/-! ### Borders can be crossed -/

theorem exists_beyond (crosses : tree.Crosses crossing start goal) (passage : Passage) :
    ∃ behind, tree.beyond passage crossing = .ok behind := by
  cases crosses with
  | out isStack around =>
    cases above : tree.parent? start with
    | none =>
      rw [parentStack?_of_orphan above] at around
      cases around
    | some scope =>
      obtain ⟨found, place, atScope⟩ := parent?_eq_some above
      have isFound : tree.find start = .ok found := find_eq_ok.mpr place
      have path : tree.embeddingPath start =
          .ok (tree.pathComponents scope ++ embeddingComponents found.id) := by
        rw [embeddingPath, isFound]
        simp only [bind, Except.bind, atScope, pure, Except.pure]
      obtain ⟨resource, named⟩ : ∃ resource, tree.embeddingId start = .ok resource := by
        rw [embeddingId, isFound]
        simp only [bind, Except.bind, atScope, around]
        exact ⟨_, rfl⟩
      rw [beyond, named, path]
      exact ⟨_, rfl⟩
  | across => exact ⟨_, rfl⟩
  | into => exact ⟨_, rfl⟩

/-- A value can be taken over borders that follow each other. -/
theorem exists_journey {crossings : List Crossing} (leads : tree.Leads start crossings goal) :
    ∀ passage, ∃ travelled, tree.journey passage crossings = .ok travelled := by
  induction leads with
  | stay => exact fun _ => ⟨_, rfl⟩
  | cross crosses _ inductionHypothesis =>
    intro passage
    obtain ⟨behind, moved⟩ := exists_beyond crosses passage
    obtain ⟨travelled, further⟩ := inductionHypothesis behind
    exact ⟨_, bind_eq_ok.mpr ⟨behind, moved, bind_eq_ok.mpr ⟨travelled, further, rfl⟩⟩⟩

/-- A value comes to a stack wherever there is a route. -/
theorem WellFormed.exists_delivery (wellFormed : tree.WellFormed) {producer : Producer}
    {route : Route} (found : tree.route producer.home goal = .ok route) :
    ∃ delivery, tree.delivery producer goal = .ok delivery := by
  obtain ⟨travelled, done⟩ := exists_journey (wellFormed.leads_of_route found) producer.passage
  exact ⟨_, bind_eq_ok.mpr ⟨route, found, bind_eq_ok.mpr ⟨travelled, done, rfl⟩⟩⟩

theorem WellFormed.route_eq_error (wellFormed : tree.WellFormed) {producer : Producer}
    {cause : ResolveError} (failed : tree.delivery producer goal = .error cause) :
    tree.route producer.home goal = .error cause := by
  cases found : tree.route producer.home goal with
  | error other =>
    rw [delivery, found] at failed
    cases failed
    rfl
  | ok route =>
    obtain ⟨delivery, delivered⟩ := wellFormed.exists_delivery found
    rw [delivered] at failed
    cases failed

/-! ### What a reference brings -/

/-- The hops that bring the value of a reference to the stack that consumes it. -/
def hopsFor (tree : Tree) (reference : Reference) : List Hop :=
  match tree.delivery reference.producer reference.consumerStack with
  | .ok delivery => delivery.hops
  | .error _ => []

/-- How the value of a reference arrives. -/
def arrival? (tree : Tree) (reference : Reference) : Option (Consumption × Template.Value) :=
  match tree.delivery reference.producer reference.consumerStack with
  | .ok delivery => some ((reference.leaf, reference.consumerStack), delivery.final.value)
  | .error _ => none

/-- The hops of a reference cross borders of the tree. -/
theorem WellFormed.crosses_of_hopsFor (wellFormed : tree.WellFormed) {hop : Hop}
    (isHop : hop ∈ tree.hopsFor reference) :
    ∃ start next, tree.Crosses hop.crossing start next := by
  rw [hopsFor] at isHop
  split at isHop
  · rename_i delivery delivered
    exact wellFormed.crosses_of_delivery delivered isHop
  · cases isHop

/-- How a value arrives depends on where it comes from and where it is consumed. -/
theorem arrival?_agrees {other : Reference} (isReference : tree.HasReference reference)
    (isReferenceToo : tree.HasReference other) {arrival arrivalToo : Consumption × Template.Value}
    (arrives : tree.arrival? reference = some arrival)
    (arrivesToo : tree.arrival? other = some arrivalToo) (same : arrival.1 = arrivalToo.1) :
    arrival.2 = arrivalToo.2 := by
  have origin := (hasReference_iff.mp isReference).origin
  have originToo := (hasReference_iff.mp isReferenceToo).origin
  rw [arrival?] at arrives arrivesToo
  split at arrives
  · rename_i delivery delivered
    split at arrivesToo
    · rename_i deliveryToo deliveredToo
      cases arrives
      cases arrivesToo
      obtain ⟨sameLeaf, sameStack⟩ := Prod.mk.inj same
      rw [sameLeaf, originToo] at origin
      rw [← Except.ok.inj origin, sameStack, deliveredToo] at delivered
      cases delivered
      rfl
    · cases arrivesToo
  · cases arrives

end Tree

namespace Wiring

/-! ### One call -/

theorem run_of_outcome {α : Type} {action : Action α} {value : α}
    (done : outcome action wiring = .ok (value, after)) : action.run wiring = .ok value after := by
  rw [outcome] at done
  cases ran : action.run wiring with
  | ok other state =>
    rw [ran] at done
    cases done
    rfl
  | error cause state =>
    rw [ran] at done
    cases done

/-- A call enters the delivery of its reference, or changes nothing. -/
theorem run_attempt (wellFormed : tree.WellFormed) (wiring : Wiring) (reference : Reference) :
    (attempt tree reference).run wiring =
      match tree.delivery reference.producer reference.consumerStack with
      | .ok delivery => .ok delivery.boundary
        (wiring.enter tree (reference.leaf, reference.consumerStack) delivery)
      | .error cause => .error cause wiring := by
  cases delivered : tree.delivery reference.producer reference.consumerStack with
  | ok delivery =>
    have wired := wire_eq tree wiring reference
    rw [delivered] at wired
    exact run_of_outcome wired
  | error cause =>
    rw [attempt, wellFormed.route_eq_error delivered]
    rfl

/-- The wiring after a call, whether the call fails or not. -/
def call (tree : Tree) (wiring : Wiring) (reference : Reference) : Wiring :=
  match (attempt tree reference).run wiring with
  | .ok _ after => after
  | .error _ after => after

theorem call_eq (wellFormed : tree.WellFormed) (wiring : Wiring) (reference : Reference) :
    wiring.call tree reference =
      match tree.delivery reference.producer reference.consumerStack with
      | .ok delivery => wiring.enter tree (reference.leaf, reference.consumerStack) delivery
      | .error _ => wiring := by
  rw [call, run_attempt wellFormed]
  cases tree.delivery reference.producer reference.consumerStack <;> rfl

/-- A call writes what the hops of its reference bring. -/
theorem states_call (wellFormed : tree.WellFormed) (wiring : Wiring) (reference : Reference) :
    (wiring.call tree reference).states =
      (tree.hopsFor reference).foldl (noteIn tree) wiring.states := by
  rw [call_eq wellFormed, Tree.hopsFor]
  cases tree.delivery reference.producer reference.consumerStack with
  | ok delivery => exact states_foldl_record tree delivery.hops wiring
  | error _ => rfl

/-- A call notes how its value arrives. -/
theorem table_call (wellFormed : tree.WellFormed) (wiring : Wiring) (reference : Reference) :
    (wiring.call tree reference).table = (tree.arrival? reference).toList.foldl
      (fun table entry => table.insert entry.1 entry.2) wiring.table := by
  rw [call_eq wellFormed, Tree.arrival?]
  cases tree.delivery reference.producer reference.consumerStack <;> rfl

/-- A call adds a dependency where its value goes across. -/
theorem graph_call (wellFormed : tree.WellFormed) (wiring : Wiring) (reference : Reference) :
    (wiring.call tree reference).graph = wiring.graph.addAll
      ((tree.hopsFor reference).filterMap (·.crossing.dependency?)) := by
  rw [call_eq wellFormed, Tree.hopsFor]
  cases tree.delivery reference.producer reference.consumerStack with
  | ok delivery => exact graph_foldl_record tree delivery.hops wiring
  | error _ => rfl

/-! ### Any number of calls -/

/-- The wiring after calls. -/
def calls (tree : Tree) (wiring : Wiring) (references : List Reference) : Wiring :=
  references.foldl (call tree) wiring

/-- What every call keeps, all of them keep. -/
theorem calls_induction {holds : Wiring → Prop} {references : List Reference}
    (kept : ∀ reference ∈ references, ∀ wiring, holds wiring → holds (wiring.call tree reference))
    (atStart : holds wiring) : holds (wiring.calls tree references) :=
  List.foldlRecOn references _ atStart
    fun wiring before reference member => kept reference member wiring before

section Effects

variable (wellFormed : tree.WellFormed) (references : List Reference) (wiring : Wiring)
include wellFormed

theorem states_calls : (wiring.calls tree references).states =
    (references.flatMap tree.hopsFor).foldl (noteIn tree) wiring.states := by
  rw [List.foldl_flatMap]
  exact (List.foldl_hom Wiring.states fun wiring reference =>
    (states_call wellFormed wiring reference).symm).symm

theorem table_calls : (wiring.calls tree references).table =
    (references.filterMap tree.arrival?).foldl
      (fun table entry => table.insert entry.1 entry.2) wiring.table := by
  rw [List.filterMap_eq_flatMap_toList, List.foldl_flatMap]
  exact (List.foldl_hom Wiring.table fun wiring reference =>
    (table_call wellFormed wiring reference).symm).symm

theorem graph_calls : (wiring.calls tree references).graph =
    wiring.graph.addAll
      ((references.flatMap tree.hopsFor).filterMap (·.crossing.dependency?)) := by
  rw [List.filterMap_flatMap, DeployGraph.addAll, List.foldl_flatMap]
  exact (List.foldl_hom Wiring.graph fun wiring reference =>
    (graph_call wellFormed wiring reference).symm).symm

end Effects

/-- Wiring references one after the other, without a failure, is calling for each of them. -/
theorem calls_of_wireAll (wellFormed : tree.WellFormed) {references : List Reference} :
    ∀ {wiring : Wiring} {wired : List (Reference × Boundary)},
      wiring.wireAll tree references = .ok (wired, after) →
      after = wiring.calls tree references := by
  induction references with
  | nil =>
    intro wiring wired done
    cases done
    rfl
  | cons reference rest inductionHypothesis =>
    intro wiring wired done
    obtain ⟨delivery, further, delivered, doneRest, _⟩ := wireAll_cons_eq_ok done
    rw [inductionHypothesis doneRest, calls, calls, List.foldl_cons, call_eq wellFormed, delivered]

/-- What is noted as wired are the references in order. -/
theorem map_fst_wireAll {references : List Reference} :
    ∀ {wiring : Wiring} {wired : List (Reference × Boundary)},
      wiring.wireAll tree references = .ok (wired, after) → wired.map (·.1) = references := by
  induction references with
  | nil =>
    intro wiring wired done
    cases done
    rfl
  | cons reference rest inductionHypothesis =>
    intro wiring wired done
    obtain ⟨_, _, _, doneRest, rfl⟩ := wireAll_cons_eq_ok done
    rw [List.map_cons, inductionHypothesis doneRest]

end Wiring

/-! ### The calls of a preparation -/

/-- What preparation wires it wires by calls, for references that are found. -/
theorem Prepared.wiring_eq_calls {app : Application} {bundler : Asset.Bundler}
    {prepared : Prepared} (wellFormed : app.tree.WellFormed)
    (ready : app.prepare bundler = .ok prepared) :
    prepared.wiring =
        (Wiring.start (stackGraph app.tree)).calls app.tree (prepared.wired.map (·.1)) ∧
      ∀ entry ∈ prepared.wired, app.tree.HasReference entry.1 := by
  obtain ⟨started, start, run, _⟩ := prepare_eq_ok ready
  constructor
  · refine foldlM_invariant (fun _ state => state.wiring =
      (Wiring.start (stackGraph app.tree)).calls app.tree (state.wired.map (·.1))) ?_ ?_ run
    · intro _ stack _ state next _ soFar turned
      obtain ⟨embedded, top, parent, hash, references, wired, turn⟩ := turn_of_embed turned
      rw [Wiring.calls_of_wireAll wellFormed turn.wiring, soFar, turn.wiredAfter, List.map_append,
        Wiring.map_fst_wireAll turn.wiring, Wiring.calls, Wiring.calls, Wiring.calls,
        List.foldl_append]
    · obtain ⟨references, wired, wiring, _, wiredAll, rfl⟩ := start_eq_ok start
      rw [Wiring.map_fst_wireAll wiredAll]
      exact Wiring.calls_of_wireAll wellFormed wiredAll
  · intro entry member
    exact Tree.hasReference_iff.mpr ((sound_of_prepare wellFormed ready).proper entry member).1

/-- In a relay a resource of the one nested stack consumes a value of the other, which goes out of
the one, across, and into the other. -/
theorem Application.exists_relayed : ∃ reference,
    (build Asset.byPath relay).tree.referenceBetween (.construct 3 "Arn") 6 5 =
        .ok (some reference) ∧
      (build Asset.byPath relay).tree.route reference.producer.home reference.consumerStack =
        .ok ⟨.crossTopLevelSibling, [2], some (1, 4), [5]⟩ := by
  have found : ((build Asset.byPath relay).tree.referenceBetween
      (.construct 3 "Arn") 6 5).toOption.join.map (fun reference =>
        ((build Asset.byPath relay).tree.route reference.producer.home
          reference.consumerStack).toOption) =
      some (some ⟨.crossTopLevelSibling, [2], some (1, 4), [5]⟩) := by
    decide +kernel
  obtain ⟨reference, known, routed⟩ := Option.map_eq_some_iff.mp found
  rw [Option.join_eq_some_iff] at known
  exact ⟨reference, eq_ok_of_toOption known, eq_ok_of_toOption routed⟩

end StackSynth
