/-
This file takes values apart into their links: what stands in a template for something else, by
name, by attribute or by import. Resolving a deferred value keeps its structure and puts the leaves
in their places, so every link of the result is a pseudo parameter or comes from a leaf.
-/

import StackSynth.Deferred.Basic
import StackSynth.Proofs.Outcome

namespace StackSynth

open Outcome

namespace Template.Value

mutual

/-- The references, attributes and imports in a value, from left to right. -/
def links : Value → List Value
  | .literal _ => []
  | .ref name => [.ref name]
  | .getAtt resource attr => [.getAtt resource attr]
  | .importValue exported => [.importValue exported]
  | .join _ parts => linksOfItems parts
  | .select _ items => links items
  | .split _ source => links source
  | .list items => linksOfItems items
  | .object members => linksOfMembers members

/-- The links in items. -/
def linksOfItems : List Value → List Value
  | [] => []
  | item :: rest => links item ++ linksOfItems rest

/-- The links in members. -/
def linksOfMembers : List (String × Value) → List Value
  | [] => []
  | (_, value) :: rest => links value ++ linksOfMembers rest

end

theorem mem_linksOfMembers {link : Value} {members : List (String × Value)} :
    link ∈ linksOfMembers members ↔ ∃ member ∈ members, link ∈ member.2.links := by
  induction members with
  | nil => simp [linksOfMembers]
  | cons member rest inductionHypothesis =>
    obtain ⟨key, value⟩ := member
    rw [linksOfMembers, List.mem_append, inductionHypothesis]
    simp

end Template.Value

namespace Deferred

variable {ε : Type} {view : Leaf → Except ε Template.Value} {link : Template.Value}

/-- A link that is a pseudo parameter or with which one of the leaves is written. -/
def Linked (view : Leaf → Except ε Template.Value) (link : Template.Value) (leaves : List Leaf) :
    Prop :=
  (∃ pseudo : PseudoParameter, link = .ref pseudo.name) ∨
    ∃ leaf ∈ leaves, ∃ written, view leaf = .ok written ∧ link ∈ written.links

theorem Linked.mono {front back : List Leaf} (linked : Linked view link front)
    (within : ∀ leaf ∈ front, leaf ∈ back) : Linked view link back :=
  linked.imp_right fun ⟨produced, member, rest⟩ => ⟨produced, within produced member, rest⟩

mutual

/-- The links of a resolved value are pseudo parameters and the links of its leaves. -/
theorem linked_of_resolve : ∀ {value : Deferred} {result : Template.Value},
    value.resolve view = .ok result → link ∈ result.links → Linked view link value.leaves
  | .literal _, _, done, member => by
    cases done
    cases member
  | .pseudo parameter, _, done, member => by
    cases done
    exact .inl ⟨parameter, List.mem_singleton.mp member⟩
  | .leaf produced, result, done, member =>
    .inr ⟨produced, List.mem_cons_self, result, done, member⟩
  | .join _ parts, _, done, member => by
    obtain ⟨_, doneParts, same⟩ := bind_eq_ok.mp done
    cases same
    exact linked_of_resolveItems doneParts member
  | .select _ items, _, done, member => by
    obtain ⟨_, doneItems, same⟩ := bind_eq_ok.mp done
    cases same
    have linked := linked_of_resolve doneItems member
    exact linked
  | .split _ source, _, done, member => by
    obtain ⟨_, doneSource, same⟩ := bind_eq_ok.mp done
    cases same
    have linked := linked_of_resolve doneSource member
    exact linked
  | .list items, _, done, member => by
    obtain ⟨_, doneItems, same⟩ := bind_eq_ok.mp done
    cases same
    exact linked_of_resolveItems doneItems member
  | .object members, _, done, member => by
    obtain ⟨_, doneMembers, same⟩ := bind_eq_ok.mp done
    cases same
    exact linked_of_resolveMembers doneMembers member

theorem linked_of_resolveItems : ∀ {items : List Deferred} {results : List Template.Value},
    resolveItems view items = .ok results → link ∈ Template.Value.linksOfItems results →
      Linked view link (leavesOfItems items)
  | [], _, done, member => by
    cases done
    cases member
  | item :: rest, _, done, member => by
    obtain ⟨_, doneItem, done⟩ := bind_eq_ok.mp done
    obtain ⟨_, doneRest, same⟩ := bind_eq_ok.mp done
    cases same
    rcases List.mem_append.mp member with here | later
    · exact (linked_of_resolve doneItem here).mono fun _ => List.mem_append_left _
    · exact (linked_of_resolveItems doneRest later).mono fun _ => List.mem_append_right _

/-- The links of resolved members are pseudo parameters and the links of their leaves. -/
theorem linked_of_resolveMembers :
    ∀ {members : List (String × Deferred)} {results : List (String × Template.Value)},
      resolveMembers view members = .ok results →
        link ∈ Template.Value.linksOfMembers results → Linked view link (leavesOfMembers members)
  | [], _, done, member => by
    cases done
    cases member
  | (_, value) :: rest, _, done, member => by
    obtain ⟨_, doneValue, done⟩ := bind_eq_ok.mp done
    obtain ⟨_, doneRest, same⟩ := bind_eq_ok.mp done
    cases same
    rcases List.mem_append.mp member with here | later
    · exact (linked_of_resolve doneValue here).mono fun _ => List.mem_append_left _
    · exact (linked_of_resolveMembers doneRest later).mono fun _ => List.mem_append_right _

end

end Deferred

end StackSynth
