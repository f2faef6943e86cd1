/-
This file tells where the links in a template come from. Besides pseudo parameters a template is
written with values of leaves that stand in its stack: those that its members consume, those that
are on their way into the nested stacks it embeds, and those that it shows or exports. And how a
value stands in a stack is told by the last border that it crossed.
-/

import StackSynth.Proofs.Deferred.Linking
import StackSynth.Proofs.Synthesis.Presence
import StackSynth.Proofs.Synthesis.SelfReference

namespace StackSynth

open Outcome

/-- The references, attributes and imports in a template. -/
def Template.links (template : Template) : List Template.Value :=
  template.resources.flatMap (fun resource => Template.Value.linksOfMembers resource.2.properties)
    ++ template.outputs.values.flatMap (fun output => output.value.links)

/-- What a resource that embeds a nested stack supplies are the received values. -/
theorem Rendering.mem_links_suppliedProperty {received : SortedMap String Template.Value}
    {link : Template.Value}
    (member : link ∈ Template.Value.linksOfMembers (suppliedProperty received)) :
    ∃ name value, received.get? name = some value ∧ link ∈ value.links := by
  rw [suppliedProperty] at member
  split at member
  · cases member
  · rw [Template.Value.linksOfMembers, Template.Value.linksOfMembers, List.append_nil,
      Template.Value.links, Template.Value.mem_linksOfMembers] at member
    obtain ⟨entry, isEntry, isLink⟩ := member
    exact ⟨entry.1, entry.2, SortedMap.mem_entries.mp isEntry, isLink⟩

namespace Prepared

/-- A leaf stands in a stack behind hops that wiring has made. -/
structure Stood (tree : Tree) (prepared : Prepared) (stack : NodeId) (leaf : Leaf)
    (hops : List Hop) (value : Template.Value) : Prop where
  stands : tree.Stands leaf hops stack value
  made : ∀ hop ∈ hops, tree.Made prepared.wired hop

/-- A link in a value that stands in a stack. -/
def LinkIn (tree : Tree) (prepared : Prepared) (stack : NodeId) (link : Template.Value) : Prop :=
  (∃ pseudo : PseudoParameter, link = .ref pseudo.name) ∨
    ∃ leaf hops value, prepared.Stood tree stack leaf hops value ∧ link ∈ value.links

variable {tree : Tree} {prepared : Prepared} {stack nested : NodeId} {link value : Template.Value}
  {template : Template}

namespace Sound

variable {done : List NodeId} (sound : prepared.Sound tree done) (wellFormed : tree.WellFormed)
include sound wellFormed

/-- What a stack writes for leaves links to what stands in it. -/
theorem linkIn_of_linked {leaves : List Leaf}
    (linked : Deferred.Linked (tree.view prepared.wiring.table stack) link leaves) :
    prepared.LinkIn tree stack link := by
  rcases linked with isPseudo | ⟨leaf, _, written, view, member⟩
  · exact .inl isPseudo
  · obtain ⟨hops, brings⟩ := sound.brings_of_view wellFormed view
    exact .inr ⟨leaf, hops, written, ⟨brings.stands, brings.made⟩, member⟩

theorem linkIn_of_write {deferred : Deferred}
    (written : prepared.rendering.write tree stack deferred = .ok value)
    (member : link ∈ value.links) : prepared.LinkIn tree stack link := by
  rw [Rendering.write, mapError_eq_ok] at written
  exact sound.linkIn_of_linked wellFormed (Deferred.linked_of_resolve written member)

/-- Before a hop its value stands in the stack from which the hop is made. -/
theorem stood_before_hop {hop : Hop} (made : tree.Made prepared.wired hop) :
    ∃ leaf hops start next, prepared.Stood tree start leaf hops hop.passage.value ∧
      tree.Crosses hop.crossing start next := by
  obtain ⟨entry, member, delivery, delivered, isHop⟩ := made
  obtain ⟨before, after, split⟩ := List.append_of_mem isHop
  have stands := wellFormed.stands_of_delivery (sound.proper entry member).1.origin delivered
  obtain ⟨start, next, standsBefore, crosses⟩ := stands.before_hop split
  refine ⟨entry.1.leaf, before, start, next, ⟨standsBefore, fun other isBefore => ?_⟩, crosses⟩
  exact ⟨entry, member, delivery, delivered, split ▸ List.mem_append_left _ isBefore⟩

/-- What a stack supplies to a nested stack stands in it. -/
theorem stood_of_received (around : tree.parentStack? nested = some stack) {name : String}
    (received : (prepared.wiring.stateOf nested).received.get? name = some value) :
    ∃ leaf hops, prepared.Stood tree stack leaf hops value := by
  obtain ⟨⟨crossing, passage⟩, made, sameHolder, _, supply⟩ :=
    sound.accounts.records.received received
  obtain ⟨leaf, hops, start, next, stood, crosses⟩ := sound.stood_before_hop wellFormed made
  cases crosses with
  | into _ aroundNext =>
    cases sameHolder
    cases supply
    cases Option.some.inj (around.symm.trans aroundNext)
    exact ⟨leaf, hops, stood⟩
  | _ => cases supply

/-- What a stack shows or exports stands in it. -/
theorem stood_of_shown {name : String} {output : OutputDecl}
    (shown : (prepared.wiring.stateOf stack).outputs.get? name = some output) :
    ∃ leaf hops, prepared.Stood tree stack leaf hops output.value := by
  obtain ⟨⟨crossing, passage⟩, made, sameHolder, _, outputs⟩ :=
    sound.accounts.records.shown shown
  obtain ⟨leaf, hops, start, next, stood, crosses⟩ := sound.stood_before_hop wellFormed made
  cases crosses with
  | into => cases outputs
  | _ =>
    cases sameHolder
    cases outputs
    exact ⟨leaf, hops, stood⟩

/-- A resource of a stack is written with what stands in the stack. -/
theorem linkIn_of_resource {node : NodeId} {name : String} {resource : ResourceDecl}
    (declares : prepared.Declares tree stack (.construct node) name (.resource resource))
    (member : link ∈ Template.Value.linksOfMembers resource.properties) :
    prepared.LinkIn tree stack link := by
  cases declares with
  | @construct _ found _ _ _ around _ writes =>
    generalize found.construct = construct at writes
    cases writes with
    | resource written =>
      have resolved := Rendering.resolveMembers_eq_ok.mpr written
      exact sound.linkIn_of_linked wellFormed (Deferred.linked_of_resolveMembers resolved member)
    | nestedStack located written =>
      rw [Template.Value.linksOfMembers, List.mem_append] at member
      rcases member with inLocation | inSupplied
      · exact sound.linkIn_of_write wellFormed written inLocation
      · obtain ⟨_, value, received, isLink⟩ := Rendering.mem_links_suppliedProperty inSupplied
        obtain ⟨leaf, hops, stood⟩ := sound.stood_of_received wellFormed around received
        exact .inr ⟨leaf, hops, value, stood, isLink⟩

/-- An output of a stack is written with what stands in the stack. -/
theorem linkIn_of_output {source : Source} {name : String} {output : OutputDecl}
    (declares : prepared.Declares tree stack source name (.output output))
    (member : link ∈ output.value.links) : prepared.LinkIn tree stack link := by
  cases declares with
  | @construct _ found _ _ _ _ _ writes =>
    generalize found.construct = construct at writes
    cases writes with
    | output written => exact sound.linkIn_of_write wellFormed written member
  | shown shown =>
    obtain ⟨leaf, hops, stood⟩ := sound.stood_of_shown wellFormed shown
    exact .inr ⟨leaf, hops, _, stood, member⟩

/-- The links in the template of a stack are pseudo parameters and the links of what stands in the
stack. -/
theorem linkIn_of_template (presents : prepared.Presents tree stack template)
    (member : link ∈ template.links) : prepared.LinkIn tree stack link := by
  rcases List.mem_append.mp member with inResources | inOutputs
  · obtain ⟨entry, isEntry, inProperties⟩ := List.mem_flatMap.mp inResources
    obtain ⟨node, declares⟩ := presents.exists_construct isEntry
    exact sound.linkIn_of_resource wellFormed declares inProperties
  · obtain ⟨output, isOutput, inValue⟩ := List.mem_flatMap.mp inOutputs
    obtain ⟨⟨name, _⟩, isEntry, rfl⟩ := List.mem_map.mp isOutput
    have holds : template.Holds name (.output _) := SortedMap.mem_entries.mp isEntry
    obtain ⟨source, declares, _⟩ := presents.sources holds
    exact sound.linkIn_of_output wellFormed declares inValue

end Sound

end Prepared

end StackSynth
