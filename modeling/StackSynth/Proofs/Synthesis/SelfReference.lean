/-
This file decides when a nested stack cannot be created because the resource that embeds it refers
to itself. What a stack supplies to a nested stack are the values on their way into it, and each of
them stands in the stack by a name of its template. That the name is the one of the embedding
resource has one of two reasons: the value is the identity of the nested stack, which a construct
in a stack inside it asks for; or it is a parameter, and nothing keeps the names of parameters
apart from those of resources. The first happens because only a stack itself sees its identity as a
pseudo parameter, while the stacks inside it get it from the stack around.
-/

import StackSynth.Proofs.Deferred.Referring
import StackSynth.Proofs.Synthesis.Aliasing
import StackSynth.Proofs.Synthesis.Provenance

namespace StackSynth

open Outcome

/-- The names that a resource refers to. -/
def ResourceDecl.names (declaration : ResourceDecl) : List String :=
  Template.Value.namesOfMembers declaration.properties

/-- A construct in a stack inside a nested stack consumes the identity of the nested stack. -/
def Tree.AsksFromWithin (tree : Tree) (nested : NodeId) : Prop :=
  ∃ node stack attr, tree.stackOf? node = some stack ∧ nested ∈ tree.stackChain stack ∧
    nested ≠ stack ∧ .stack nested attr ∈ tree.consumedBy node

/-- What a stack hands to a nested stack in it, with the hops that brought it to the stack: a value
on its way into the nested stack, or a part of the address of its template. -/
inductive Prepared.Hands (tree : Tree) (prepared : Prepared) (parent nested : NodeId) :
    Leaf → List Hop → Prop where
  | supplied {entry : Reference × Boundary} {delivery : Delivery} {hops after : List Hop}
    {passage : Passage} :
    entry ∈ prepared.wired →
    tree.delivery entry.1.producer entry.1.consumerStack = .ok delivery →
    delivery.hops = hops ++ ⟨.into nested, passage⟩ :: after →
    Hands tree prepared parent nested entry.1.leaf hops
  | located {embedded : EmbeddedTemplate} {leaf : Leaf} {hops : List Hop} :
    prepared.rendering.embedded.get? nested = some embedded →
    leaf ∈ embedded.location.leaves → tree.hopsTo parent leaf = .ok hops →
    Hands tree prepared parent nested leaf hops

/-- Among what a stack hands to a nested stack is a parameter that has the name of a resource. -/
def Prepared.HandsNamesake (tree : Tree) (prepared : Prepared) (parent nested : NodeId)
    (resource : String) : Prop :=
  ∃ leaf hops meaning, prepared.Hands tree parent nested leaf hops ∧ meaning ≠ .resource ∧
    tree.Means parent leaf hops meaning resource

/-- What a resource that embeds a nested stack refers to, by address and by what it supplies. -/
theorem Rendering.mem_names_suppliedProperty {received : SortedMap String Template.Value}
    {name : String} (location : Template.Value) :
    name ∈ Template.Value.namesOfMembers (("TemplateURL", location) :: suppliedProperty received) ↔
      name ∈ location.names ∨
        ∃ parameter value, received.get? parameter = some value ∧ name ∈ value.names := by
  have ofReceived : name ∈ Template.Value.namesOfMembers (suppliedProperty received) ↔
      ∃ entry ∈ received.entries, name ∈ entry.2.names := by
    rw [suppliedProperty]
    split
    · rename_i nothing
      rw [SortedMap.isEmpty, List.isEmpty_iff] at nothing
      simp [Template.Value.namesOfMembers, nothing]
    · rw [Template.Value.namesOfMembers, Template.Value.namesOfMembers, List.append_nil,
        Template.Value.names, Template.Value.mem_namesOfMembers]
  rw [Template.Value.namesOfMembers, List.mem_append, ofReceived]
  simp only [← SortedMap.mem_entries, Prod.exists]

namespace Prepared.Sound

variable {tree : Tree} {prepared : Prepared} {parent nested : NodeId} {leaf : Leaf}
  {hops : List Hop} {value : Template.Value} {resource : String}
  (sound : prepared.Sound tree (nestedStacks tree)) (wellFormed : tree.WellFormed)
include sound wellFormed

/-! ### What is handed -/

/-- Before a value goes into a nested stack it stands in the stack around. -/
theorem stands_of_supplied (around : tree.parentStack? nested = some parent)
    {entry : Reference × Boundary} {delivery : Delivery} {after : List Hop} {passage : Passage}
    (member : entry ∈ prepared.wired)
    (delivered : tree.delivery entry.1.producer entry.1.consumerStack = .ok delivery)
    (split : delivery.hops = hops ++ ⟨.into nested, passage⟩ :: after) :
    tree.Stands entry.1.leaf hops parent passage.value := by
  have origin := (sound.proper entry member).1.origin
  obtain ⟨start, next, stands, crosses⟩ :=
    (wellFormed.stands_of_delivery origin delivered).before_hop split
  cases crosses with
  | into _ aroundNested =>
    rw [around] at aroundNested
    cases aroundNested
    exact stands

variable {embedded : EmbeddedTemplate} {location : Template.Value}
  (located : prepared.rendering.embedded.get? nested = some embedded)
  (written : prepared.rendering.write tree parent embedded.location = .ok location)
  (around : tree.parentStack? nested = some parent)
  (notPseudo : ∀ pseudo : PseudoParameter, resource ≠ pseudo.name)
include located written around notPseudo

/-- Whatever the embedding resource refers to is the name of something handed. -/
theorem exists_handed
    (refers : resource ∈ Template.Value.namesOfMembers (("TemplateURL", location) ::
      Rendering.suppliedProperty (prepared.wiring.stateOf nested).received)) :
    ∃ leaf hops value, prepared.Hands tree parent nested leaf hops ∧
      tree.Stands leaf hops parent value ∧ resource ∈ value.names := by
  rcases (Rendering.mem_names_suppliedProperty location).mp refers with
    inLocation | ⟨parameter, value, received, isNamed⟩
  · rw [Rendering.write, mapError_eq_ok] at written
    obtain ⟨leaf, member, value, view, isNamed⟩ :=
      (Deferred.mem_names_of_resolve notPseudo written).mp inLocation
    obtain ⟨hops, brings⟩ := sound.brings_of_view wellFormed view
    exact ⟨leaf, hops, value, .located located member brings.comes, brings.stands, isNamed⟩
  · obtain ⟨⟨crossing, passage⟩, made, sameHolder, _, supply⟩ :=
      sound.accounts.records.received received
    cases crossing with
    | into holder =>
      cases sameHolder
      cases supply
      obtain ⟨entry, member, delivery, delivered, isHop⟩ := made
      obtain ⟨before, after, split⟩ := List.append_of_mem isHop
      exact ⟨entry.1.leaf, before, passage.value, .supplied member delivered split,
        sound.stands_of_supplied wellFormed around member delivered split, isNamed⟩
    | out holder => cases supply
    | across exporter importer => cases supply

/-- If no name was claimed for two values, the embedding resource refers to whatever is handed. -/
theorem refers_of_handed (faithful : tree.Faithful prepared.wired)
    (hands : prepared.Hands tree parent nested leaf hops)
    (isNamed : ∀ value, tree.Stands leaf hops parent value → resource ∈ value.names) :
    resource ∈ Template.Value.namesOfMembers (("TemplateURL", location) ::
      Rendering.suppliedProperty (prepared.wiring.stateOf nested).received) := by
  refine (Rendering.mem_names_suppliedProperty location).mpr ?_
  cases hands with
  | @supplied entry delivery _ after passage member delivered split =>
    have stands := sound.stands_of_supplied wellFormed around member delivered split
    have isHop : ⟨.into nested, passage⟩ ∈ delivery.hops := by
      rw [split]
      exact List.mem_append_right _ List.mem_cons_self
    have received := sound.accounts.records.received_of_made faithful
      ⟨entry, member, delivery, delivered, isHop⟩
    exact .inr ⟨_, _, received, isNamed _ stands⟩
  | located known member comes =>
    rw [located] at known
    cases known
    rw [Rendering.write, mapError_eq_ok] at written
    obtain ⟨value, view⟩ := Deferred.leaf_of_resolve_ok written leaf member
    obtain ⟨hopsOther, brings⟩ := sound.brings_of_view wellFormed view
    cases Except.ok.inj (comes.symm.trans brings.comes)
    exact .inl ((Deferred.mem_names_of_resolve notPseudo written).mpr
      ⟨leaf, member, value, view, isNamed value brings.stands⟩)

end Prepared.Sound

/-! ### What is named like the embedding resource -/

section Naming

variable {tree : Tree} {prepared : Prepared} {parent nested : NodeId} {leaf : Leaf}
  {hops : List Hop} {value : Template.Value} {resource : String}

/-- What stands in a rendered stack by the name of the resource that embeds a nested stack is the
identity of the nested stack, an output of it, or a parameter of that name. -/
theorem Tree.Stands.of_namesake (stands : tree.Stands leaf hops parent value)
    (wellFormed : tree.WellFormed) (rendered : prepared.AllRendered tree)
    (nestedIn : tree.NestedIn parent nested resource) (isNamed : resource ∈ value.names) :
    (∃ attr, leaf = .stack nested attr ∧ hops = []) ∨
      (∃ before passage, hops = before ++ [⟨.out nested, passage⟩]) ∨
      ∃ meaning, meaning ≠ .resource ∧ tree.Means parent leaf hops meaning resource := by
  obtain ⟨template, _, _, renders⟩ := rendered parent (isStack_of_parentStack? nestedIn.around)
  -- a resource of that name is the one that embeds the nested stack
  have onlyOne : ∀ {other}, tree.NestedIn parent other resource → other = nested :=
    fun otherIn => renders.claims_unique (renders.claims_nested wellFormed otherIn)
      (renders.claims_nested wellFormed nestedIn)
  have noResource : ∀ {node}, ¬tree.ResourceIn parent node resource :=
    fun resourceIn => renders.not_nested_of_resource wellFormed resourceIn nestedIn
  rcases stands.home_or_arrives wellFormed with
    ⟨rfl, atHome⟩ | ⟨before, hop, _, rfl, _, _, arrives⟩
  · cases atHome with
    | own attr =>
      have isPseudo : resource = attr.pseudo.name := List.mem_singleton.mp isNamed
      exact absurd isPseudo ((isName_embeddingId nestedIn.named).ne_pseudo _)
    | resource resourceIn =>
      cases List.mem_singleton.mp isNamed
      exact absurd resourceIn noResource
    | attributeOf resourceIn _ =>
      cases List.mem_singleton.mp isNamed
      exact absurd resourceIn noResource
    | parameter parameterIn =>
      cases List.mem_singleton.mp isNamed
      exact .inr (.inr ⟨.parameter, by decide, .parameter parameterIn⟩)
    | slot hash slot =>
      cases List.mem_singleton.mp isNamed
      exact .inr (.inr ⟨.slot, by decide, .slot hash slot⟩)
    | nestedId otherIn =>
      cases List.mem_singleton.mp isNamed
      exact .inl ⟨.id, by rw [onlyOne otherIn], rfl⟩
    | nestedName otherIn =>
      cases List.mem_singleton.mp isNamed
      exact .inl ⟨.name, by rw [onlyOne otherIn], rfl⟩
  · cases arrives with
    | received _ passage =>
      cases List.mem_singleton.mp isNamed
      exact .inr (.inr ⟨.received, by decide, .received leaf before passage⟩)
    | @read _ _ passage _ otherIn =>
      cases List.mem_singleton.mp isNamed
      exact .inr (.inl ⟨before, passage, by rw [onlyOne otherIn]⟩)
    | imported => cases isNamed

/-- A value enters a stack only on its way into it or into a stack inside. -/
theorem Tree.mem_chain_of_into {producer : Producer} {consumer : NodeId} {delivery : Delivery}
    {passage : Passage} (delivered : tree.delivery producer consumer = .ok delivery)
    (isHop : ⟨.into nested, passage⟩ ∈ delivery.hops) : nested ∈ tree.stackChain consumer := by
  obtain ⟨route, found, _⟩ := Tree.delivery_eq_ok delivered
  refine Tree.chain_of_down found ?_
  rw [← Route.into_mem_crossings, ← Tree.crossings_of_delivery found delivered]
  exact List.mem_map.mpr ⟨_, isHop, rfl⟩

/-- A value leaves a stack only if it is at home inside and goes elsewhere. -/
theorem Tree.WellFormed.chains_of_out (wellFormed : tree.WellFormed) {producer : Producer}
    {consumer : NodeId} {delivery : Delivery} {passage : Passage}
    (delivered : tree.delivery producer consumer = .ok delivery)
    (isHop : ⟨.out nested, passage⟩ ∈ delivery.hops) :
    nested ∈ tree.stackChain producer.home ∧ nested ∉ tree.stackChain consumer := by
  obtain ⟨route, found, _⟩ := Tree.delivery_eq_ok delivered
  refine wellFormed.chains_of_up found ?_
  rw [← Route.out_mem_crossings, ← Tree.crossings_of_delivery found delivered]
  exact List.mem_map.mpr ⟨_, isHop, rfl⟩

variable (sound : prepared.Sound tree (Prepared.nestedStacks tree)) (wellFormed : tree.WellFormed)
  (isNested : tree.isNested nested = true)
include sound wellFormed isNested

/-- The leaves in the address of a nested stack are slots of an asset of its top-level stack. -/
theorem Prepared.Sound.slot_of_located {embedded : EmbeddedTemplate}
    (located : prepared.rendering.embedded.get? nested = some embedded)
    (member : leaf ∈ embedded.location.leaves) :
    ∃ top hash slot, tree.topLevelOf? nested = some top ∧ leaf = .asset top hash slot := by
  obtain ⟨_, top, _, embeds⟩ :=
    sound.embeds nested ((Prepared.mem_nestedStacks wellFormed).mpr isNested)
  obtain ⟨hash, address⟩ := embeds.location
  rw [Option.some.inj (located.symm.trans embeds.located), address] at member
  obtain ⟨slot, rfl⟩ := Asset.Handle.leaf_of_webUrl member
  exact ⟨top, hash, slot, embeds.outermost, rfl⟩

variable (around : tree.parentStack? nested = some parent)

/-- A nested stack is handed its own identity only if a stack inside asks for it. -/
theorem Prepared.Provenance.asksFromWithin_of_hands {own further : List (Reference × Boundary)}
    (provenance : prepared.Provenance tree own further) {attr : StackAttribute}
    (hands : prepared.Hands tree parent nested (.stack nested attr) []) :
    tree.AsksFromWithin nested := by
  generalize handed : Leaf.stack nested attr = leaf at hands
  cases hands with
  | @supplied entry delivery _ after passage member delivered split =>
    rcases provenance.consumed_or_slot wellFormed member with
      ⟨node, belongs, consumed⟩ | ⟨_, _, _, isSlot⟩
    · have goesIn : ⟨.into nested, passage⟩ ∈ delivery.hops := split ▸ List.mem_cons_self
      have notOwn := (sound.proper entry member).1.notOwn
      rw [← handed] at notOwn consumed
      refine ⟨node, _, attr, belongs, Tree.mem_chain_of_into delivered goesIn, ?_, consumed⟩
      rintro rfl
      simp [Leaf.ownIdentity?] at notOwn
    · rw [← handed] at isSlot
      cases isSlot
  | located located member _ =>
    obtain ⟨_, _, _, _, isSlot⟩ := sound.slot_of_located wellFormed isNested located member
    rw [← handed] at isSlot
    cases isSlot

include around

/-- What is handed to a nested stack does not come out of it. -/
theorem Prepared.Hands.not_out {before : List Hop} {passage : Passage}
    (hands : prepared.Hands tree parent nested leaf (before ++ [⟨.out nested, passage⟩])) :
    False := by
  have isStack := Tree.isStack_of_isNested isNested
  cases hands with
  | supplied member delivered split =>
    have goesOut := (wellFormed.chains_of_out delivered
      (by rw [split]; exact List.mem_append_left _ (List.mem_append_right _ List.mem_cons_self))).2
    exact goesOut (Tree.mem_chain_of_into delivered
      (by rw [split]; exact List.mem_append_right _ List.mem_cons_self))
  | located located member comes =>
    obtain ⟨top, hash, slot, topOf, rfl⟩ :=
      sound.slot_of_located wellFormed isNested located member
    obtain ⟨_, origin, comes⟩ := bind_eq_ok.mp comes
    cases origin
    obtain ⟨delivery, delivered, comes⟩ := bind_eq_ok.mp comes
    -- the top-level stack is the only one around itself, and the nested stack is not it
    obtain ⟨_, _, isStackTop, outermost⟩ := wellFormed.topLevelOf?_eq_some isStack topOf
    have inTop := (wellFormed.chains_of_out delivered
      (by rw [pure_eq_ok.mp comes]; exact List.mem_append_right _ List.mem_cons_self)).1
    rw [wellFormed.stackChain_of_outermost isStackTop outermost, List.mem_singleton] at inTop
    rw [inTop, outermost] at around
    cases around

/-- A stack hands the identity of a nested stack to that stack if a stack inside asks for it. -/
theorem Prepared.Provenance.exists_hands {own further : List (Reference × Boundary)}
    (provenance : prepared.Provenance tree own further) (asks : tree.AsksFromWithin nested) :
    ∃ attr, prepared.Hands tree parent nested (.stack nested attr) [] := by
  have isStack := Tree.isStack_of_isNested isNested
  obtain ⟨node, stack, attr, belongs, inside, apart, consumed⟩ := asks
  have notOwn : (Leaf.stack nested attr).ownIdentity? stack = none := if_neg apart
  have homeParent : ∀ {producer}, tree.producer (.stack nested attr) = .ok producer →
      producer.home = parent := fun origin =>
    (Option.some.inj (around.symm.trans (Tree.home_of_nested isNested origin))).symm
  obtain ⟨all, _⟩ := wellFormed.references_eq_ok provenance.found
  rcases all node stack belongs _ consumed with
    (isOwn | ⟨producer, origin, atHome⟩) | ⟨reference, isFound, sameLeaf, rfl⟩
  · rw [notOwn] at isOwn
    cases isOwn
  · -- the stack that asks lies deeper than the one around the nested stack
    have deep := wellFormed.depth_le_of_mem (Tree.isStack_of_stackOf? belongs) inside
    rw [wellFormed.depth_of_nested isStack around, ← homeParent origin, atHome] at deep
    exact absurd deep (Nat.not_succ_le_self _)
  · obtain ⟨entry, isOwn, rfl⟩ := List.mem_map.mp isFound
    have member : entry ∈ prepared.wired := by
      rw [provenance.split]
      exact List.mem_append_left _ isOwn
    obtain ⟨delivery, delivered, _⟩ := sound.accounts.delivered member
    obtain ⟨route, found, _⟩ := Tree.delivery_eq_ok delivered
    have crossed := Tree.crossings_of_delivery found delivered
    have origin := (sound.proper entry member).1.origin
    rw [sameLeaf] at origin
    rw [homeParent origin] at found
    obtain ⟨rest, crossings⟩ := wellFormed.crossings_into found isStack around inside
    rw [crossings] at crossed
    obtain ⟨⟨crossing, passage⟩, after, split, rfl, _⟩ := List.map_eq_cons_iff.mp crossed
    exact ⟨attr, sameLeaf ▸ .supplied member delivered split⟩

/-- A stack hands the identity of a nested stack to that stack exactly if a stack inside asks for
it. -/
theorem Prepared.Provenance.asksFromWithin_iff {own further : List (Reference × Boundary)}
    (provenance : prepared.Provenance tree own further) :
    tree.AsksFromWithin nested ↔
      ∃ attr, prepared.Hands tree parent nested (.stack nested attr) [] :=
  ⟨provenance.exists_hands sound wellFormed isNested around,
    fun ⟨_, hands⟩ => provenance.asksFromWithin_of_hands sound wellFormed isNested hands⟩

end Naming

namespace Application

/-- In a synthesized application the resource that embeds a nested stack refers to itself only if
a stack inside the nested stack asks for the identity of it, or a parameter is handed down that has
the name of the resource; and if no name was claimed for two values, it does so exactly then. -/
theorem embedding_refers_to_itself_iff (bundler : Asset.Bundler) (steps : List BuildStep)
    {prepared : Prepared} {assembly : Assembly}
    (ready : (build bundler steps).prepare bundler = .ok prepared)
    (assembled : prepared.assembly (build bundler steps).tree = .ok assembly)
    {parent nested : NodeId} (isNested : (build bundler steps).tree.isNested nested = true)
    (around : (build bundler steps).tree.parentStack? nested = some parent) :
    ∃ resource declaration,
      (build bundler steps).tree.EmbedsBy (prepared.ownTemplate? (build bundler steps).tree) parent
        nested resource declaration ∧
      (resource ∈ declaration.names →
        (build bundler steps).tree.AsksFromWithin nested ∨
          prepared.HandsNamesake (build bundler steps).tree parent nested resource) ∧
      ((build bundler steps).tree.Faithful prepared.wired →
        (build bundler steps).tree.AsksFromWithin nested ∨
          prepared.HandsNamesake (build bundler steps).tree parent nested resource →
        resource ∈ declaration.names) := by
  have wellFormed := wellFormed_build bundler steps
  have sound := Prepared.sound_of_prepare wellFormed ready
  have rendered := sound.allRendered wellFormed assembled
  obtain ⟨own, further, provenance⟩ := Prepared.exists_provenance wellFormed ready
  obtain ⟨resource, embedded, location, located, written, embeds⟩ :=
    rendered.embedsBy wellFormed (Tree.isStack_of_isNested isNested) around
  have nestedIn : (build bundler steps).tree.NestedIn parent nested resource :=
    ⟨isNested, around, embeds.name⟩
  have notPseudo := (Tree.isName_embeddingId embeds.name).ne_pseudo
  have asks := provenance.asksFromWithin_iff sound wellFormed isNested around
  refine ⟨resource, _, embeds, fun refers => ?_, fun faithful reason => ?_⟩
  · obtain ⟨leaf, hops, value, hands, stands, isNamed⟩ :=
      sound.exists_handed wellFormed located written around notPseudo refers
    rcases stands.of_namesake wellFormed rendered nestedIn isNamed with
      ⟨attr, rfl, rfl⟩ | ⟨before, passage, rfl⟩ | ⟨meaning, isParameter, means⟩
    · exact .inl (asks.mpr ⟨attr, hands⟩)
    · exact absurd hands (fun hands => hands.not_out sound wellFormed isNested around)
    · exact .inr ⟨leaf, hops, meaning, hands, isParameter, means⟩
  · rcases reason with asksWithin | ⟨leaf, hops, meaning, hands, _, means⟩
    · obtain ⟨attr, hands⟩ := asks.mp asksWithin
      refine sound.refers_of_handed wellFormed located written around notPseudo faithful hands
        fun value stands => ?_
      generalize handed : Leaf.stack nested attr = leaf at stands
      cases stands.atHome with
      | own =>
        -- no stack stands in itself
        cases handed
        exact absurd (Tree.parentStack?_lt wellFormed.ordered around) (Nat.lt_irrefl _)
      | nestedId otherIn =>
        cases handed
        rw [Except.ok.inj (nestedIn.named.symm.trans otherIn.named)]
        exact List.mem_cons_self
      | nestedName otherIn =>
        cases handed
        rw [Except.ok.inj (nestedIn.named.symm.trans otherIn.named)]
        exact List.mem_cons_self
      | _ => cases handed
    · refine sound.refers_of_handed wellFormed located written around notPseudo faithful hands
        fun value stands => ?_
      rw [wellFormed.value_of_means means stands]
      exact List.mem_cons_self

/-- A nested stack in a nested stack, with a resource that reads the identity of the outer one. -/
def innerReader : List BuildStep :=
  [.topLevelStack 0 "S" ⟨none, .unspecified⟩, .nestedStack 1 "P", .nestedStack 2 "N",
    .resource 3 "U" ⟨"Bucket", [("Around", .leaf (.stack 2 .id))], none⟩]

/-- The application has an assembly, in which no name was claimed twice; the document of the
top-level stack has a resource that refers to itself. -/
theorem innerReader_synthesizes :
    ∃ prepared assembly template declaration,
      (build Asset.byPath innerReader).prepare Asset.byPath = .ok prepared ∧
        prepared.assembly (build Asset.byPath innerReader).tree = .ok assembly ∧
        (build Asset.byPath innerReader).tree.Faithful prepared.wired ∧
        assembly.documents.get? "S.template.json" = some template ∧
        Fields.get? "PNestedStackPNestedStackResource8E577BCE" template.resources =
          some declaration ∧
        declaration.type = "AWS::CloudFormation::Stack" ∧
        "PNestedStackPNestedStackResource8E577BCE" ∈ declaration.names := by
  have seen : ((build Asset.byPath innerReader).prepare Asset.byPath).toOption.bind
      (fun prepared =>
        (prepared.assembly (build Asset.byPath innerReader).tree).toOption.map (fun assembly =>
          (decide (((build Asset.byPath innerReader).tree.hopsOf prepared.wired).map
              (fun hop => (hop.crossing.register, hop.name))).Nodup,
            (assembly.documents.get? "S.template.json").map (fun template =>
              (Fields.get? "PNestedStackPNestedStackResource8E577BCE" template.resources).map
                (fun declaration => (declaration.type,
                  decide ("PNestedStackPNestedStackResource8E577BCE" ∈ declaration.names)))))))
      = some (true, some (some ("AWS::CloudFormation::Stack", true))) := by
    decide +kernel
  obtain ⟨prepared, ready, seen⟩ := Option.bind_eq_some_iff.mp seen
  obtain ⟨assembly, assembled, seen⟩ := exists_of_map_toOption seen
  obtain ⟨named, seen⟩ := Prod.mk.inj seen
  obtain ⟨template, document, seen⟩ := Option.map_eq_some_iff.mp seen
  obtain ⟨declaration, declared, seen⟩ := Option.map_eq_some_iff.mp seen
  obtain ⟨type, refers⟩ := Prod.mk.inj seen
  exact ⟨prepared, assembly, template, declaration, eq_ok_of_toOption ready, assembled,
    Tree.faithful_of_named_once (of_decide_eq_true named), document, declared, type,
    of_decide_eq_true refers⟩

/-- The inner stack asks for the identity of the outer one, so the resource that embeds the outer
one refers to itself. -/
theorem innerReader_refers_to_itself :
    ∃ prepared resource declaration,
      (build Asset.byPath innerReader).prepare Asset.byPath = .ok prepared ∧
        (build Asset.byPath innerReader).tree.AsksFromWithin 2 ∧
        (build Asset.byPath innerReader).tree.EmbedsBy
          (prepared.ownTemplate? (build Asset.byPath innerReader).tree) 1 2 resource
          declaration ∧
        resource ∈ declaration.names := by
  obtain ⟨prepared, assembly, _, _, ready, assembled, faithful, _⟩ := innerReader_synthesizes
  have isNested : (build Asset.byPath innerReader).tree.isNested 2 = true := by decide +kernel
  have around : (build Asset.byPath innerReader).tree.parentStack? 2 = some 1 := by decide +kernel
  have asks : (build Asset.byPath innerReader).tree.AsksFromWithin 2 := by
    refine ⟨4, 3, .id, ?_, ?_, by decide, ?_⟩ <;> decide +kernel
  obtain ⟨resource, declaration, embeds, _, refers⟩ :=
    embedding_refers_to_itself_iff Asset.byPath innerReader ready assembled isNested around
  exact ⟨prepared, resource, declaration, ready, asks, embeds, refers faithful (.inl asks)⟩

/-- Synthesis embeds the outer stack by a resource that waits for its own identity. -/
theorem innerReader_cannot_be_created :
    ∃ assembly template declaration,
      (build Asset.byPath innerReader).synthesize Asset.byPath = .ok assembly ∧
        assembly.documents.get? "S.template.json" = some template ∧
        Fields.get? "PNestedStackPNestedStackResource8E577BCE" template.resources =
          some declaration ∧
        declaration.type = "AWS::CloudFormation::Stack" ∧
        "PNestedStackPNestedStackResource8E577BCE" ∈ declaration.names := by
  obtain ⟨prepared, assembly, template, declaration, ready, assembled, _, document, declared,
    type, refers⟩ := innerReader_synthesizes
  exact ⟨assembly, template, declaration, bind_eq_ok.mpr ⟨prepared, ready, assembled⟩, document,
    declared, type, refers⟩

end Application

end StackSynth
