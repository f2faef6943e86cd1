/-
This file proves that wired values can be traced. How a stack writes a value that was wired into it
is read back from template to template: a reference to a parameter leads to what the stack around
supplies for it, an attribute of an embedding resource to an output of the nested stack, an import
to the output that exports it. Read this way, every wired value leads along its route to the value
of its producer, provided that no name of a stack was claimed for two values. The wiring notes only
the first value of a name, so without that proviso the trace can end at another producer.
-/

import Mathlib.Data.List.Nodup
import StackSynth.Proofs.Fields
import StackSynth.Proofs.Synthesis.Documents

namespace StackSynth

open Outcome

/-! ### Names -/

/-- Where the name of a crossing is noted. -/
inductive Register where
  /-- Parameters that wiring adds to a nested stack. -/
  | parameters (stack : NodeId)
  /-- Outputs that wiring adds to a nested stack. -/
  | outputs (stack : NodeId)
  /-- Outputs by which a top-level stack exports. -/
  | exports (stack : NodeId)
deriving DecidableEq

/-- Where a crossing is noted. -/
def Crossing.register : Crossing → Register
  | .out stack => .outputs stack
  | .across exporter _ => .exports exporter
  | .into stack => .parameters stack

/-- No name of a register was claimed for two values. -/
def Tree.Faithful (tree : Tree) (wired : List (Reference × Boundary)) : Prop :=
  ∀ first second, tree.Made wired first → tree.Made wired second →
    first.crossing.register = second.crossing.register → first.name = second.name →
    first.passage.value = second.passage.value

/-- The hops that wired references made, in order. -/
def Tree.hopsOf (tree : Tree) (wired : List (Reference × Boundary)) : List Hop :=
  wired.flatMap (fun entry =>
    match tree.delivery entry.1.producer entry.1.consumerStack with
    | .ok delivery => delivery.hops
    | .error _ => [])

theorem Tree.mem_hopsOf {tree : Tree} {wired : List (Reference × Boundary)} {hop : Hop}
    (made : tree.Made wired hop) : hop ∈ tree.hopsOf wired := by
  obtain ⟨entry, member, delivery, delivered, isHop⟩ := made
  refine List.mem_flatMap.mpr ⟨entry, member, ?_⟩
  rw [delivered]
  exact isHop

/-- Where no register has a name twice, no name was claimed twice. -/
theorem Tree.faithful_of_named_once {tree : Tree} {wired : List (Reference × Boundary)}
    (distinct : ((tree.hopsOf wired).map (fun hop => (hop.crossing.register, hop.name))).Nodup) :
    tree.Faithful wired := by
  intro first second madeFirst madeSecond sameRegister sameName
  rw [List.inj_on_of_nodup_map distinct (mem_hopsOf madeFirst) (mem_hopsOf madeSecond)
    (Prod.ext sameRegister sameName)]

/-- Where every register was used once, no name was claimed twice. -/
theorem Tree.faithful_of_nodup {tree : Tree} {wired : List (Reference × Boundary)}
    (distinct : ((tree.hopsOf wired).map (·.crossing.register)).Nodup) : tree.Faithful wired := by
  refine faithful_of_named_once (List.Nodup.of_map Prod.fst ?_)
  rwa [List.map_map]

/-! ### Traces -/

/-- The template of a stack embeds a nested stack by a resource. -/
structure Tree.EmbedsBy (tree : Tree) (own : NodeId → Option Template) (parent nested : NodeId)
    (resource : String) (declaration : ResourceDecl) : Prop where
  around : tree.parentStack? nested = some parent
  name : tree.embeddingId nested = .ok resource
  declared : ∃ template, own parent = some template ∧
    Fields.get? resource template.resources = some declaration
  type : declaration.type = Rendering.nestedStackType

/-- A trace: how a value at home in a stack is written in another, read off the templates of the
stacks on the way. -/
inductive Tree.Trace (tree : Tree) (own : NodeId → Option Template) (home : NodeId)
    (native : Template.Value) : List Crossing → NodeId → Template.Value → Prop where
  | native : Trace tree own home native [] home native
  /-- The nested stack shows the value, and the stack around reads the output. -/
  | shown {crossings : List Crossing} {stack parent : NodeId} {value : Template.Value}
    {template : Template} {output : OutputDecl} {name resource : String}
    {declaration : ResourceDecl} :
    Trace tree own home native crossings stack value →
    own stack = some template → template.outputs.get? name = some output → output.value = value →
    tree.EmbedsBy own parent stack resource declaration →
    Trace tree own home native (crossings ++ [.out stack]) parent
      (.getAtt resource ("Outputs." ++ name))
  /-- The top-level stack exports the value, and another one imports it. -/
  | imported {crossings : List Crossing} {exporter importer : NodeId} {value : Template.Value}
    {template : Template} {output : OutputDecl} {id name : String} :
    Trace tree own home native crossings exporter value →
    own exporter = some template → template.outputs.get? id = some output →
    output.exported = some name → output.value = value →
    Trace tree own home native (crossings ++ [.across exporter importer]) importer
      (.importValue name)
  /-- The stack around supplies the value, and the nested stack has a parameter for it. -/
  | supplied {crossings : List Crossing} {parent stack : NodeId} {value : Template.Value}
    {template : Template} {parameter : ParameterDecl} {name resource : String}
    {declaration : ResourceDecl} {members : List (String × Template.Value)} :
    Trace tree own home native crossings parent value →
    tree.EmbedsBy own parent stack resource declaration →
    Fields.get? "Parameters" declaration.properties = some (.object members) →
    Fields.get? name members = some value →
    own stack = some template → template.parameters.get? name = some parameter →
    Trace tree own home native (crossings ++ [.into stack]) stack (.ref name)

/-! ### What is on record under a faithful naming -/

variable {tree : Tree} {wiring : Wiring} {wired : List (Reference × Boundary)} {hop : Hop}
  {stack parent : NodeId}

/-- A hop that was made crosses a border of the tree. -/
theorem Tree.WellFormed.crosses_of_made (wellFormed : tree.WellFormed)
    (made : tree.Made wired hop) : ∃ start next, tree.Crosses hop.crossing start next := by
  obtain ⟨_, _, _, delivered, isHop⟩ := made
  exact wellFormed.crosses_of_delivery delivered isHop

/-- Hops that are noted in one register, with one name and value, make the same output. -/
theorem Hop.output?_congr {first second : Hop}
    (register : first.crossing.register = second.crossing.register)
    (name : first.name = second.name) (value : first.passage.value = second.passage.value) :
    first.output? tree = second.output? tree := by
  rw [output?, output?, name, value]
  revert register
  cases first.crossing <;> cases second.crossing <;> intro register <;> cases register <;> rfl

/-- A stack notes its outputs in one register: one that exports stands in no other, and one that
shows values to a stack does. -/
theorem Hop.register_eq_of_crosses {first second : Hop} {near far nearToo farToo : NodeId}
    (crosses : tree.Crosses first.crossing near far)
    (crossesToo : tree.Crosses second.crossing nearToo farToo)
    (sameHolder : first.crossing.holder = second.crossing.holder) {one other : OutputDecl}
    (declares : first.output? tree = some one) (declaresToo : second.output? tree = some other) :
    first.crossing.register = second.crossing.register := by
  obtain ⟨crossing, passage⟩ := first
  obtain ⟨crossingToo, passageToo⟩ := second
  cases crosses with
  | into => cases declares
  | out _ around =>
    cases crossesToo with
    | into => cases declaresToo
    | out => exact congrArg Register.outputs sameHolder
    | across _ outermost =>
      cases sameHolder
      rw [outermost] at around
      cases around
  | across _ outermost =>
    cases crossesToo with
    | into => cases declaresToo
    | across => exact congrArg Register.exports sameHolder
    | out _ around =>
      cases sameHolder
      rw [outermost] at around
      cases around

theorem Tree.WellFormed.register_eq_of_made (wellFormed : tree.WellFormed) {first second : Hop}
    (madeFirst : tree.Made wired first) (madeSecond : tree.Made wired second)
    (sameHolder : first.crossing.holder = second.crossing.holder) {one other : OutputDecl}
    (declares : first.output? tree = some one) (declaresToo : second.output? tree = some other) :
    first.crossing.register = second.crossing.register := by
  obtain ⟨_, _, crosses⟩ := wellFormed.crosses_of_made madeFirst
  obtain ⟨_, _, crossesToo⟩ := wellFormed.crosses_of_made madeSecond
  exact Hop.register_eq_of_crosses crosses crossesToo sameHolder declares declaresToo

namespace Wiring.Records

variable (records : wiring.Records tree (tree.Made wired)) (faithful : tree.Faithful wired)
include records faithful

/-- A parameter receives the value of every hop that claims its name. -/
theorem received_of_made {passage : Passage} (made : tree.Made wired ⟨.into stack, passage⟩) :
    (wiring.stateOf stack).received.get? (Naming.parameterName passage.path passage.attr) =
      some passage.value := by
  obtain ⟨first, held⟩ := records.receives made rfl
  obtain ⟨⟨crossing, other⟩, madeOther, sameHolder, sameName, supply⟩ := records.received held
  cases crossing with
  | into holder =>
    cases sameHolder
    have sameValue := faithful _ _ madeOther made rfl sameName
    cases supply
    exact sameValue ▸ held
  | out holder => cases supply
  | across exporter importer => cases supply

/-- An output shows or exports the value of every hop that claims its name. -/
theorem output_of_made (wellFormed : tree.WellFormed) {declaration : OutputDecl}
    (made : tree.Made wired hop) (declares : hop.output? tree = some declaration) :
    (wiring.stateOf hop.crossing.holder).outputs.get? hop.name = some declaration := by
  obtain ⟨first, held⟩ := records.shows made declares
  obtain ⟨other, madeOther, sameHolder, sameName, declaresToo⟩ := records.shown held
  have sameRegister := wellFormed.register_eq_of_made madeOther made sameHolder declaresToo declares
  have sameValue := faithful _ _ madeOther made sameRegister sameName
  rw [held, ← declaresToo, Hop.output?_congr sameRegister sameName sameValue, declares]

end Wiring.Records

/-! ### Embedding resources -/

namespace Rendering.Renders

variable {rendering : Rendering} {assetParameters : SortedMap String ParameterDecl}
  {template : Template}

/-- A rendered stack embeds each nested stack in it, by the address of its template as the stack
writes it, and supplies what that one receives. -/
theorem exists_embedding (renders : rendering.Renders tree parent assetParameters template)
    (wellFormed : tree.WellFormed) (isNested : tree.isNested stack = true)
    (around : tree.parentStack? stack = some parent) :
    ∃ resource embedded location, tree.embeddingId stack = .ok resource ∧
      rendering.embedded.get? stack = some embedded ∧
      rendering.write tree parent embedded.location = .ok location ∧
      Fields.get? resource template.resources = some ⟨nestedStackType,
        ("TemplateURL", location) ::
          suppliedProperty (rendering.wiring.stateOf stack).received⟩ := by
  have isMember : stack ∈ tree.membersOf parent :=
    (wellFormed.mem_membersOf (Tree.isStack_of_parentStack? around)).mpr around
  obtain ⟨node, place, shape⟩ := Tree.get?_of_isNested isNested
  obtain ⟨found, declared⟩ := renders.members stack isMember
  obtain ⟨declaration, embedding, resource, name, rfl⟩ :=
    (declarationOf_nested place shape).mp declared
  have holds := renders.holds_member isMember declared
  rw [embeddingResource] at embedding
  split at embedding
  · cases embedding
  · rename_i embedded located
    obtain ⟨location, written, same⟩ := bind_eq_ok.mp embedding
    cases same
    exact ⟨resource, embedded, location, name, located, written, holds⟩

end Rendering.Renders

/-- What a stack receives is among the properties of the resource that embeds it. -/
theorem Rendering.get?_suppliedProperty {received : SortedMap String Template.Value}
    {name : String} {value : Template.Value} (location : Template.Value)
    (held : received.get? name = some value) :
    Fields.get? "Parameters" (("TemplateURL", location) :: suppliedProperty received) =
      some (.object received.entries) := by
  have listed := SortedMap.mem_entries.mpr held
  have notEmpty : received.isEmpty = false := by
    rw [SortedMap.isEmpty, List.isEmpty_eq_false_iff]
    exact List.ne_nil_of_mem listed
  rw [suppliedProperty, notEmpty]
  rfl

/-! ### Tracing a journey -/

variable {prepared : Prepared}

/-- Every stack has a template of its own that renders the final state. -/
def Prepared.AllRendered (tree : Tree) (prepared : Prepared) : Prop :=
  ∀ stack, tree.isStack stack = true → ∃ template assetParameters,
    prepared.ownTemplate? tree stack = some template ∧
      prepared.rendering.Renders tree stack assetParameters template

theorem Prepared.Sound.allRendered {assembly : Assembly}
    (sound : prepared.Sound tree (Prepared.nestedStacks tree)) (wellFormed : tree.WellFormed)
    (assembled : prepared.assembly tree = .ok assembly) : prepared.AllRendered tree :=
  fun _ isStack => sound.exists_ownTemplate wellFormed
    (fun _ isNested => (Prepared.mem_nestedStacks wellFormed).mpr isNested) assembled isStack

section Tracing

variable (wellFormed : tree.WellFormed) (rendered : prepared.AllRendered tree)
include wellFormed rendered

theorem Prepared.AllRendered.embedsBy (isStack : tree.isStack stack = true)
    (around : tree.parentStack? stack = some parent) :
    ∃ resource embedded location, prepared.rendering.embedded.get? stack = some embedded ∧
      prepared.rendering.write tree parent embedded.location = .ok location ∧
      tree.EmbedsBy (prepared.ownTemplate? tree) parent stack resource
        ⟨Rendering.nestedStackType, ("TemplateURL", location) ::
          Rendering.suppliedProperty (prepared.wiring.stateOf stack).received⟩ := by
  have isNested := (wellFormed.isNested_iff isStack).mpr ⟨parent, around⟩
  obtain ⟨template, _, own, renders⟩ := rendered parent (Tree.isStack_of_parentStack? around)
  obtain ⟨resource, embedded, location, name, located, written, declared⟩ :=
    renders.exists_embedding wellFormed isNested around
  exact ⟨resource, embedded, location, located, written, around, name,
    ⟨template, own, declared⟩, rfl⟩

variable (records : prepared.wiring.Records tree (tree.Made prepared.wired))
  (faithful : tree.Faithful prepared.wired)
include records faithful

/-- One hop continues a trace. -/
theorem Tree.Trace.cross {home start next : NodeId} {native : Template.Value}
    {crossings : List Crossing} {passage behind : Passage} {crossing : Crossing}
    (trace : tree.Trace (prepared.ownTemplate? tree) home native crossings start passage.value)
    (crosses : tree.Crosses crossing start next)
    (moved : tree.beyond passage crossing = .ok behind)
    (made : tree.Made prepared.wired ⟨crossing, passage⟩) :
    tree.Trace (prepared.ownTemplate? tree) home native (crossings ++ [crossing]) next
      behind.value := by
  cases crosses with
  | out isStack around =>
    obtain ⟨resource, name, moved⟩ := bind_eq_ok.mp moved
    obtain ⟨path, _, same⟩ := bind_eq_ok.mp moved
    cases same
    rw [mapError_eq_ok] at name
    obtain ⟨template, _, own, renders⟩ := rendered start isStack
    obtain ⟨other, _, location, _, _, embeds⟩ := rendered.embedsBy wellFormed isStack around
    have sameResource := embeds.name
    rw [name] at sameResource
    cases sameResource
    have output := renders.holds_output (records.output_of_made faithful wellFormed made rfl)
    exact .shown trace own output rfl embeds
  | across isStackExporter =>
    cases moved
    obtain ⟨template, _, own, renders⟩ := rendered start isStackExporter
    have output := renders.holds_output (records.output_of_made faithful wellFormed made rfl)
    exact .imported trace own output rfl rfl
  | into isStack around =>
    cases moved
    obtain ⟨template, _, own, renders⟩ := rendered next isStack
    obtain ⟨resource, _, location, _, _, embeds⟩ := rendered.embedsBy wellFormed isStack around
    have received := records.received_of_made faithful made
    have supplied := Rendering.get?_suppliedProperty location received
    exact .supplied trace embeds supplied ((Fields.get?_entries _ _).trans received) own
      (renders.holds_received received)

/-- A journey from home is traced, hop by hop. -/
theorem Tree.Trace.journey {home goal : NodeId} {crossings : List Crossing} {hops : List Hop}
    {passage final : Passage} (leads : tree.Leads home crossings goal)
    (travelled : tree.journey passage crossings = .ok (hops, final))
    (made : ∀ hop ∈ hops, tree.Made prepared.wired hop) :
    tree.Trace (prepared.ownTemplate? tree) home passage.value crossings goal final.value := by
  have atHome : tree.Trace (prepared.ownTemplate? tree) home passage.value
      (([] : List Hop).map Hop.crossing) home passage.value := .native
  have traced := journey_induction (fun hops place reached =>
    (∀ hop ∈ hops, tree.Made prepared.wired hop) → tree.Trace (prepared.ownTemplate? tree) home
      passage.value (hops.map Hop.crossing) place reached.value) ?_ (fun _ => atHome) leads
    travelled
  · rw [← crossings_journey travelled]
    exact traced made
  · intro hops start next crossing reached behind traced crosses moved made
    rw [List.map_append]
    exact (traced fun hop member => made hop (List.mem_append_left _ member)).cross wellFormed
      rendered records faithful crosses moved
      (made _ (List.mem_append_right _ List.mem_cons_self))

end Tracing

/-! ### Every wired value -/

/-- How a stack writes a wired leaf is how its delivery ends. -/
theorem Prepared.Sound.view_of_wired {done : List NodeId} (sound : prepared.Sound tree done)
    {entry : Reference × Boundary} (member : entry ∈ prepared.wired) {delivery : Delivery}
    (delivered : tree.delivery entry.1.producer entry.1.consumerStack = .ok delivery) :
    tree.view prepared.wiring.table entry.1.consumerStack entry.1.leaf =
      .ok delivery.final.value := by
  obtain ⟨proper, _⟩ := sound.proper entry member
  obtain ⟨value, noted⟩ := sound.accounts.notes member
  have sameValue : value = delivery.final.value := by
    obtain ⟨other, memberOther, sameLeaf, sameStack, otherDelivery, deliveredOther, atEnd⟩ :=
      sound.accounts.noted noted
    have origin := (sound.proper other memberOther).1.origin
    rw [sameLeaf, proper.origin] at origin
    rw [← Except.ok.inj origin, sameStack, delivered] at deliveredOther
    rw [← atEnd, Except.ok.inj deliveredOther]
  have notOwn : entry.1.leaf.ownIdentity? entry.1.consumerStack = none := by
    simpa using proper.notOwn
  rw [Tree.view, notOwn]
  simp only [proper.origin, noted]
  refine bind_eq_ok.mpr ⟨entry.1.producer, rfl, ?_⟩
  rw [if_neg proper.away, sameValue]
  rfl

/-- In a synthesized application whose names were each claimed for one value, every wired value is
traced from the stack that consumes it back to its producer, along its route. -/
theorem Application.wired_values_are_traced (bundler : Asset.Bundler) (steps : List BuildStep)
    {prepared : Prepared} {assembly : Assembly}
    (ready : (build bundler steps).prepare bundler = .ok prepared)
    (assembled : prepared.assembly (build bundler steps).tree = .ok assembly)
    (faithful : (build bundler steps).tree.Faithful prepared.wired) :
    ∀ entry ∈ prepared.wired, ∃ route value,
      (build bundler steps).tree.route entry.1.producer.home entry.1.consumerStack = .ok route ∧
      entry.2 = route.boundary ∧
      (build bundler steps).tree.producer entry.1.leaf = .ok entry.1.producer ∧
      (build bundler steps).tree.view prepared.wiring.table entry.1.consumerStack entry.1.leaf =
        .ok value ∧
      (build bundler steps).tree.Trace (prepared.ownTemplate? (build bundler steps).tree)
        entry.1.producer.home entry.1.producer.native route.crossings entry.1.consumerStack
        value := by
  have wellFormed := wellFormed_build bundler steps
  have sound := Prepared.sound_of_prepare wellFormed ready
  have rendered := sound.allRendered wellFormed assembled
  intro entry member
  obtain ⟨delivery, delivered, sameBoundary⟩ := sound.accounts.delivered member
  obtain ⟨route, found, boundary, travelled⟩ := Tree.delivery_eq_ok delivered
  refine ⟨route, delivery.final.value, found, sameBoundary.trans boundary,
    (sound.proper entry member).1.origin, sound.view_of_wired member delivered, ?_⟩
  have made : ∀ hop ∈ delivery.hops, (build bundler steps).tree.Made prepared.wired hop :=
    fun hop isHop => ⟨entry, member, delivery, delivered, isHop⟩
  exact Tree.Trace.journey wellFormed rendered sound.accounts.records faithful
    (wellFormed.leads_of_route found) travelled made

namespace Application

/-- The relayed value is traced over three borders. -/
theorem relay_is_traced :
    ∃ prepared assembly, (build Asset.byPath relay).prepare Asset.byPath = .ok prepared ∧
      prepared.assembly (build Asset.byPath relay).tree = .ok assembly ∧
      (build Asset.byPath relay).tree.Faithful prepared.wired ∧
      ∃ entry ∈ prepared.wired, ∃ value,
        (build Asset.byPath relay).tree.Trace
          (prepared.ownTemplate? (build Asset.byPath relay).tree) entry.1.producer.home
          entry.1.producer.native [.out 2, .across 1 4, .into 5] 5 value := by
  obtain ⟨prepared, assembly, ready, assembled⟩ := relay_synthesizes
  have routed : ((build Asset.byPath relay).prepare Asset.byPath).toOption.map (fun prepared =>
      prepared.wired.map (fun entry => (entry.1.consumerStack,
        ((build Asset.byPath relay).tree.route entry.1.producer.home
          entry.1.consumerStack).toOption.map Route.crossings))) =
      some [(5, some [.out 2, .across 1 4, .into 5])] := by
    decide +kernel
  have registers : ((build Asset.byPath relay).prepare Asset.byPath).toOption.map (fun prepared =>
      ((build Asset.byPath relay).tree.hopsOf prepared.wired).map (·.crossing.register)) =
      some [.outputs 2, .exports 1, .parameters 5] := by
    decide +kernel
  rw [ready] at routed registers
  have listed : ((build Asset.byPath relay).tree.hopsOf prepared.wired).map
      (·.crossing.register) = [.outputs 2, .exports 1, .parameters 5] :=
    Option.some.inj registers
  have distinct : (((build Asset.byPath relay).tree.hopsOf prepared.wired).map
      (·.crossing.register)).Nodup := by
    rw [listed]
    decide
  have faithful := Tree.faithful_of_nodup distinct
  obtain ⟨entry, wired, only⟩ := List.map_eq_singleton_iff.mp (Option.some.inj routed)
  have member : entry ∈ prepared.wired := wired ▸ List.mem_cons_self
  obtain ⟨route, value, found, _, _, _, traced⟩ :=
    wired_values_are_traced Asset.byPath relay ready assembled faithful entry member
  obtain ⟨atStack, crossings⟩ := Prod.mk.inj only
  rw [found] at crossings
  rw [atStack, Option.some.inj crossings] at traced
  exact ⟨prepared, assembly, ready, assembled, faithful, entry, member, value, traced⟩

end Application

end StackSynth
