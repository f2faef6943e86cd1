/-
This file lists what a value in a template refers to, the names in its references and attributes.
Resolving a deferred value adds none of its own besides pseudo parameters, so what the result
refers to is what the leaves are written with.
-/

import StackSynth.Deferred.Basic
import StackSynth.Proofs.Outcome

namespace StackSynth

open Outcome

namespace Template.Value

mutual

/-- The names of what a value refers to within its template, from left to right. -/
def names : Value → List String
  | .literal _ => []
  | .ref name => [name]
  | .getAtt resource _ => [resource]
  | .importValue _ => []
  | .join _ parts => namesOfItems parts
  | .select _ items => names items
  | .split _ source => names source
  | .list items => namesOfItems items
  | .object members => namesOfMembers members

/-- The names that items refer to. -/
def namesOfItems : List Value → List String
  | [] => []
  | item :: rest => names item ++ namesOfItems rest

/-- The names that members refer to. -/
def namesOfMembers : List (String × Value) → List String
  | [] => []
  | (_, value) :: rest => names value ++ namesOfMembers rest

end

theorem mem_namesOfMembers {name : String} {members : List (String × Value)} :
    name ∈ namesOfMembers members ↔ ∃ member ∈ members, name ∈ member.2.names := by
  induction members with
  | nil => simp [namesOfMembers]
  | cons member rest inductionHypothesis =>
    obtain ⟨key, value⟩ := member
    rw [namesOfMembers, List.mem_append, inductionHypothesis]
    simp

end Template.Value

namespace Deferred

variable {ε : Type} {view : Leaf → Except ε Template.Value} {name : String}

/-- A leaf among leaves that is written with a name. -/
def WrittenWith (view : Leaf → Except ε Template.Value) (name : String) (leaves : List Leaf) : Prop :=
  ∃ leaf ∈ leaves, ∃ written, view leaf = .ok written ∧ name ∈ written.names

theorem writtenWith_append {front back : List Leaf} :
    WrittenWith view name (front ++ back) ↔
      WrittenWith view name front ∨ WrittenWith view name back := by
  simp only [WrittenWith, List.mem_append, or_and_right, exists_or]

theorem not_writtenWith_nil : ¬WrittenWith view name [] := fun ⟨_, never, _⟩ => nomatch never

mutual

/-- A resolved value refers to what its leaves are written with. -/
theorem mem_names_of_resolve (notPseudo : ∀ pseudo : PseudoParameter, name ≠ pseudo.name) :
    ∀ {value : Deferred} {result : Template.Value}, value.resolve view = .ok result →
      (name ∈ result.names ↔ WrittenWith view name value.leaves)
  | .literal _, _, done => by
    cases done
    exact iff_of_false List.not_mem_nil not_writtenWith_nil
  | .pseudo parameter, _, done => by
    cases done
    refine iff_of_false (fun isPseudo => ?_) not_writtenWith_nil
    exact notPseudo parameter (List.mem_singleton.mp isPseudo)
  | .leaf produced, result, done => by
    constructor
    · exact fun isNamed => ⟨produced, List.mem_cons_self, result, done, isNamed⟩
    · rintro ⟨leaf, member, written, viewed, isNamed⟩
      rw [List.mem_singleton.mp member] at viewed
      rw [resolve, viewed] at done
      cases done
      exact isNamed
  | .join _ parts, _, done => by
    obtain ⟨_, doneParts, same⟩ := bind_eq_ok.mp done
    cases same
    exact mem_names_of_resolveItems notPseudo doneParts
  | .select _ items, _, done => by
    obtain ⟨_, doneItems, same⟩ := bind_eq_ok.mp done
    cases same
    have found := mem_names_of_resolve notPseudo doneItems
    exact found
  | .split _ source, _, done => by
    obtain ⟨_, doneSource, same⟩ := bind_eq_ok.mp done
    cases same
    have found := mem_names_of_resolve notPseudo doneSource
    exact found
  | .list items, _, done => by
    obtain ⟨_, doneItems, same⟩ := bind_eq_ok.mp done
    cases same
    exact mem_names_of_resolveItems notPseudo doneItems
  | .object members, _, done => by
    obtain ⟨_, doneMembers, same⟩ := bind_eq_ok.mp done
    cases same
    exact mem_names_of_resolveMembers notPseudo doneMembers

theorem mem_names_of_resolveItems
    (notPseudo : ∀ pseudo : PseudoParameter, name ≠ pseudo.name) :
    ∀ {items : List Deferred} {results : List Template.Value},
      resolveItems view items = .ok results →
        (name ∈ Template.Value.namesOfItems results ↔
          WrittenWith view name (leavesOfItems items))
  | [], _, done => by
    cases done
    exact iff_of_false List.not_mem_nil not_writtenWith_nil
  | item :: rest, _, done => by
    obtain ⟨_, doneItem, done⟩ := bind_eq_ok.mp done
    obtain ⟨_, doneRest, same⟩ := bind_eq_ok.mp done
    cases same
    rw [Template.Value.namesOfItems, List.mem_append, mem_names_of_resolve notPseudo doneItem,
      mem_names_of_resolveItems notPseudo doneRest, leavesOfItems, writtenWith_append]

theorem mem_names_of_resolveMembers
    (notPseudo : ∀ pseudo : PseudoParameter, name ≠ pseudo.name) :
    ∀ {members : List (String × Deferred)} {results : List (String × Template.Value)},
      resolveMembers view members = .ok results →
        (name ∈ Template.Value.namesOfMembers results ↔
          WrittenWith view name (leavesOfMembers members))
  | [], _, done => by
    cases done
    exact iff_of_false List.not_mem_nil not_writtenWith_nil
  | (_, value) :: rest, _, done => by
    obtain ⟨_, doneValue, done⟩ := bind_eq_ok.mp done
    obtain ⟨_, doneRest, same⟩ := bind_eq_ok.mp done
    cases same
    rw [Template.Value.namesOfMembers, List.mem_append, mem_names_of_resolve notPseudo doneValue,
      mem_names_of_resolveMembers notPseudo doneRest, leavesOfMembers, writtenWith_append]

end

end Deferred

end StackSynth
