/-
This file proves that wiring respects how stacks lie. Only nested stacks receive values; what a
nested stack shows stays within its top-level stack, and what a top-level stack shows it exports,
under its own name; and nothing is noted for a stack in which it is at home. A hop over a border of
the tree keeps to that, so any calls do, whatever their number, their routes and their order.
-/

import StackSynth.Proofs.Synthesis.Chains
import StackSynth.Proofs.Synthesis.Presence
import StackSynth.Proofs.Wiring.Calls

namespace StackSynth

open Outcome

variable {tree : Tree} {wiring : Wiring} {stack near far : NodeId} {hop : Hop}

/-! ### One stack -/

namespace StackWiring

/-- What a stack has got befits its place in the tree. -/
structure Befits (tree : Tree) (stack : NodeId) (state : StackWiring) : Prop where
  isStack : tree.isStack stack = true
  /-- The stack around supplies exactly the parameters that are declared. -/
  supplied : state.parameters.keys = state.received.keys
  outermost : tree.isNested stack = false → state.parameters = ∅
  internal : tree.isNested stack = true → ∀ {name declaration},
    state.outputs.get? name = some declaration → declaration.exported = none
  exported : tree.isNested stack = false → ∀ {name declaration},
    state.outputs.get? name = some declaration →
      declaration.exported = some (tree.stackName stack ++ ":" ++ name)

variable {state : StackWiring}

theorem keys_parameters (state : StackWiring) : state.parameters.keys = state.received.keys := by
  rw [state.supplied, SortedMap.keys_mapValues]

namespace Befits

theorem empty (isStack : tree.isStack stack = true) :
    StackWiring.empty.Befits tree stack where
  isStack := isStack
  supplied := rfl
  outermost _ := rfl
  internal _ _ _ never := nomatch never
  exported _ _ _ never := nomatch never

/-- A top-level stack receives nothing. -/
theorem received_eq_none (befits : state.Befits tree stack)
    (notNested : tree.isNested stack = false) (name : String) : state.received.get? name = none := by
  have noParameters := befits.outermost notNested
  rw [state.supplied] at noParameters
  have nothing := congrArg (·.get? name) noParameters
  simpa [SortedMap.get?_mapValues, SortedMap.get?_empty] using nothing

/-- A nested stack may receive anything. -/
theorem receive (befits : state.Befits tree stack) (isNested : tree.isNested stack = true)
    (name : String) (value : Template.Value) : (state.receive name value).Befits tree stack where
  isStack := befits.isStack
  supplied := keys_parameters _
  outermost notNested := by
    rw [isNested] at notNested
    cases notNested
  internal := by
    rw [outputs_receive]
    exact befits.internal
  exported notNested := by
    rw [isNested] at notNested
    cases notNested

/-- A stack may show a value if it exports it exactly as a top-level stack. -/
theorem declare (befits : state.Befits tree stack) {name : String} {declaration : OutputDecl}
    (internal : tree.isNested stack = true → declaration.exported = none)
    (exported : tree.isNested stack = false →
      declaration.exported = some (tree.stackName stack ++ ":" ++ name)) :
    (state.declare name declaration).Befits tree stack where
  isStack := befits.isStack
  supplied := befits.supplied
  outermost := befits.outermost
  internal isNested := by
    intro other found shown
    rcases SortedMap.of_get?_insertIfNew shown with before | ⟨_, rfl⟩
    · exact befits.internal isNested before
    · exact internal isNested
  exported notNested := by
    intro other found shown
    rcases SortedMap.of_get?_insertIfNew shown with before | ⟨rfl, rfl⟩
    · exact befits.exported notNested before
    · exact exported notNested

/-- A hop over a border of the tree brings the stack that names it what befits it. -/
theorem note (befits : state.Befits tree hop.crossing.holder) (wellFormed : tree.WellFormed)
    (crosses : tree.Crosses hop.crossing near far) :
    (state.note tree hop).Befits tree hop.crossing.holder := by
  obtain ⟨crossing, passage⟩ := hop
  cases crosses with
  | out isStack around =>
    have isNested := (wellFormed.isNested_iff isStack).mpr ⟨_, around⟩
    exact befits.declare (fun _ => rfl) fun notNested => by
      rw [Crossing.holder, isNested] at notNested
      cases notNested
  | across isStack outermost =>
    have notNested := wellFormed.isNested_of_outermost isStack outermost
    exact befits.declare (fun isNested => by
      rw [Crossing.holder, notNested] at isNested
      cases isNested) fun _ => rfl
  | into isStack around =>
    exact befits.receive ((wellFormed.isNested_iff isStack).mpr ⟨_, around⟩) _ _

end Befits

end StackWiring

theorem Tree.Crosses.isStack_holder {crossing : Crossing}
    (crosses : tree.Crosses crossing near far) : tree.isStack crossing.holder = true := by
  cases crosses <;> assumption

/-! ### All stacks -/

namespace Wiring

/-- What is wired respects how the stacks of the tree lie. -/
structure Orderly (tree : Tree) (wiring : Wiring) : Prop where
  befits : ∀ {stack state}, wiring.states.get? stack = some state → state.Befits tree stack
  away : ∀ {leaf stack value}, wiring.table.get? (leaf, stack) = some value →
    ∃ producer, tree.producer leaf = .ok producer ∧ producer.home ≠ stack

namespace Orderly

theorem start (tree : Tree) (graph : DeployGraph) : (Wiring.start graph).Orderly tree where
  befits never := nomatch never
  away never := nomatch never

/-- What a stack has got befits it, also if that is nothing. -/
theorem befits_stateOf (orderly : wiring.Orderly tree) (isStack : tree.isStack stack = true) :
    (wiring.stateOf stack).Befits tree stack := by
  rw [stateOf]
  cases known : wiring.states.get? stack with
  | none => exact .empty isStack
  | some state => exact orderly.befits known

/-- A hop over a border of the tree leaves order. -/
theorem record (orderly : wiring.Orderly tree) (wellFormed : tree.WellFormed)
    (crosses : tree.Crosses hop.crossing near far) :
    (wiring.record tree hop).Orderly tree where
  befits := by
    intro stack state known
    rw [states_record] at known
    by_cases atHolder : stack = hop.crossing.holder
    · subst atHolder
      cases (SortedMap.get?_insert_self _ _ _).symm.trans known
      exact (orderly.befits_stateOf crosses.isStack_holder).note wellFormed crosses
    · exact orderly.befits ((SortedMap.get?_insert_of_ne atHolder).symm.trans known)
  away := by
    rw [table_record]
    exact orderly.away

/-- Hops over borders of the tree leave order. -/
theorem foldl_record (wellFormed : tree.WellFormed) {hops : List Hop}
    (crosses : ∀ hop ∈ hops, ∃ near far, tree.Crosses hop.crossing near far)
    (orderly : wiring.Orderly tree) : (hops.foldl (Wiring.record tree) wiring).Orderly tree := by
  refine List.foldlRecOn hops _ orderly fun current orderly hop member => ?_
  obtain ⟨_, _, crossesBorder⟩ := crosses hop member
  exact orderly.record wellFormed crossesBorder

/-- A call leaves order. -/
theorem call (orderly : wiring.Orderly tree) (wellFormed : tree.WellFormed)
    {reference : Reference} (isReference : tree.HasReference reference) :
    (wiring.call tree reference).Orderly tree := by
  rw [call_eq wellFormed]
  cases delivered : tree.delivery reference.producer reference.consumerStack with
  | error cause => exact orderly
  | ok delivery =>
    have proper := Tree.hasReference_iff.mp isReference
    have recorded := foldl_record wellFormed
      (fun _ isHop => wellFormed.crosses_of_delivery delivered isHop) orderly
    refine ⟨recorded.befits, fun {leaf stack value} known => ?_⟩
    by_cases here : (leaf, stack) = (reference.leaf, reference.consumerStack)
    · cases here
      exact ⟨_, proper.origin, proper.away⟩
    · exact orderly.away ((SortedMap.get?_insert_of_ne here).symm.trans known)

/-- Calls leave order, whatever their number, their routes and their order. -/
theorem calls (wellFormed : tree.WellFormed) (graph : DeployGraph) {references : List Reference}
    (areReferences : ∀ reference ∈ references, tree.HasReference reference) :
    ((Wiring.start graph).calls tree references).Orderly tree :=
  calls_induction
    (fun _ member _ orderly => orderly.call wellFormed (areReferences _ member)) (start tree graph)

end Orderly

end Wiring

/-- The wiring of a preparation is orderly. -/
theorem Prepared.orderly_of_prepare {app : Application} {bundler : Asset.Bundler}
    {prepared : Prepared} (wellFormed : app.tree.WellFormed)
    (ready : app.prepare bundler = .ok prepared) : prepared.wiring.Orderly app.tree := by
  obtain ⟨sameWiring, areReferences⟩ := wiring_eq_calls wellFormed ready
  rw [sameWiring]
  refine .calls wellFormed _ fun reference member => ?_
  obtain ⟨entry, isEntry, rfl⟩ := List.mem_map.mp member
  exact areReferences entry isEntry

/-! ### What embedding resources supply -/

/-- A resource that embeds a nested stack supplies a value for a parameter of it. -/
def ResourceDecl.Supplies (declaration : ResourceDecl) (name : String) (value : Template.Value) :
    Prop :=
  ∃ members, Fields.get? "Parameters" declaration.properties = some (.object members) ∧
    Fields.get? name members = some value

theorem Rendering.supplies_iff {received : SortedMap String Template.Value} {name : String}
    {value : Template.Value} (location : Template.Value) :
    (⟨nestedStackType, ("TemplateURL", location) :: suppliedProperty received⟩ :
        ResourceDecl).Supplies name value ↔ received.get? name = some value := by
  constructor
  · rintro ⟨members, supplied, known⟩
    rw [Fields.get?, if_neg (show "TemplateURL" ≠ "Parameters" by decide), suppliedProperty]
      at supplied
    split at supplied
    · cases supplied
    · cases supplied
      exact (Fields.get?_entries received name).symm.trans known
  · intro known
    exact ⟨_, get?_suppliedProperty location known, (Fields.get?_entries received name).trans known⟩

/-- A nested stack is embedded by a resource that supplies exactly the parameters that the template
of the nested stack declares because it receives values for them. -/
def Prepared.SuppliesReceived (tree : Tree) (prepared : Prepared) (stack : NodeId) : Prop :=
  ∃ parent resource declaration template,
    tree.EmbedsBy (prepared.ownTemplate? tree) parent stack resource declaration ∧
      prepared.ownTemplate? tree stack = some template ∧
      ∀ name, (∃ value, declaration.Supplies name value) ↔
        template.Holds name (.parameter .string) ∧
          prepared.Declares tree stack .received name (.parameter .string)

theorem Prepared.suppliesReceived_of_prepare {app : Application} {bundler : Asset.Bundler}
    {prepared : Prepared} {assembly : Assembly} (wellFormed : app.tree.WellFormed)
    (ready : app.prepare bundler = .ok prepared)
    (assembled : prepared.assembly app.tree = .ok assembly)
    (isNested : app.tree.isNested stack = true) : prepared.SuppliesReceived app.tree stack := by
  have isStack := Tree.isStack_of_isNested isNested
  obtain ⟨parent, around⟩ := (wellFormed.isNested_iff isStack).mp isNested
  have rendered := (sound_of_prepare wellFormed ready).allRendered wellFormed assembled
  obtain ⟨resource, _, location, _, _, embeds⟩ := rendered.embedsBy wellFormed isStack around
  obtain ⟨template, own, ofTree⟩ := ownTemplate_of_prepare wellFormed ready assembled isStack
  have presents := presents_of_template wellFormed isStack ofTree
  refine ⟨parent, resource, _, template, embeds, own, fun name => ?_⟩
  simp only [Rendering.supplies_iff]
  constructor
  · rintro ⟨value, received⟩
    exact ⟨presents.declared (.received received), .received received⟩
  · rintro ⟨_, declares⟩
    cases declares with
    | received received => exact ⟨_, received⟩

namespace Application

/-- Calls for references leave the wiring orderly, whatever their number, their routes and their
order. So the wiring of a preparation is orderly, and every nested stack of a synthesized
application is supplied with exactly what its template declares for the values it receives. -/
theorem wiring_is_orderly (bundler : Asset.Bundler) (steps : List BuildStep) :
    (∀ (graph : DeployGraph) (references : List Reference),
      (∀ reference ∈ references, (build bundler steps).tree.HasReference reference) →
        ((Wiring.start graph).calls (build bundler steps).tree references).Orderly
          (build bundler steps).tree) ∧
    ∀ prepared, (build bundler steps).prepare bundler = .ok prepared →
      prepared.wiring.Orderly (build bundler steps).tree ∧
        ∀ assembly, prepared.assembly (build bundler steps).tree = .ok assembly →
          ∀ nested, (build bundler steps).tree.isNested nested = true →
            prepared.SuppliesReceived (build bundler steps).tree nested := by
  have wellFormed := wellFormed_build bundler steps
  exact ⟨fun graph _ areReferences => .calls wellFormed graph areReferences,
    fun _ ready => ⟨Prepared.orderly_of_prepare wellFormed ready, fun _ assembled _ isNested =>
      Prepared.suppliesReceived_of_prepare wellFormed ready assembled isNested⟩⟩

/-- The reference of a relay is called for twice, and wired by a preparation. -/
theorem relay_is_orderly :
    ∃ reference prepared assembly,
      (build Asset.byPath relay).tree.referenceBetween (.construct 3 "Arn") 6 5 =
          .ok (some reference) ∧
        ((Wiring.start .empty).calls (build Asset.byPath relay).tree [reference, reference]).Orderly
          (build Asset.byPath relay).tree ∧
        (build Asset.byPath relay).prepare Asset.byPath = .ok prepared ∧
        prepared.wiring.Orderly (build Asset.byPath relay).tree ∧
        prepared.assembly (build Asset.byPath relay).tree = .ok assembly ∧
        (build Asset.byPath relay).tree.isNested 5 = true ∧
        prepared.SuppliesReceived (build Asset.byPath relay).tree 5 := by
  obtain ⟨prepared, assembly, ready, assembled⟩ := relay_synthesizes
  obtain ⟨reference, found, _⟩ := exists_relayed
  obtain ⟨ofCalls, ofPreparation⟩ := wiring_is_orderly Asset.byPath relay
  obtain ⟨orderly, supplied⟩ := ofPreparation prepared ready
  have isNested : (build Asset.byPath relay).tree.isNested 5 = true := by decide +kernel
  refine ⟨reference, prepared, assembly, found, ?_, ready, orderly, assembled, isNested,
    supplied assembly assembled 5 isNested⟩
  refine ofCalls .empty [reference, reference] fun other member => ?_
  have same : other = reference := by simpa using member
  exact same ▸ ⟨_, _, _, found⟩

end Application

end StackSynth
