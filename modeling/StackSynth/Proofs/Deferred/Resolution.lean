/-
This file proves that resolving a deferred value looks at nothing but its leaves. Two views that
agree on the leaves give the same result, a result means that every leaf has one, and an error is
the error of a leaf. Each is proved along the value, a list of items and a list of members at once.
-/

import StackSynth.Deferred.Basic
import StackSynth.Proofs.Outcome

namespace StackSynth.Deferred

open Outcome

variable {ε : Type}

/-! ### Views that agree -/

mutual

theorem resolve_congr {first second : Leaf → Except ε Template.Value} :
    ∀ value : Deferred, (∀ leaf ∈ value.leaves, first leaf = second leaf) →
      value.resolve first = value.resolve second
  | .literal _, _ => rfl
  | .pseudo _, _ => rfl
  | .leaf produced, agree => agree produced List.mem_cons_self
  | .join _ parts, agree => by rw [resolve, resolve, resolveItems_congr parts agree]
  | .select _ items, agree => by rw [resolve, resolve, resolve_congr items agree]
  | .split _ source, agree => by rw [resolve, resolve, resolve_congr source agree]
  | .list items, agree => by rw [resolve, resolve, resolveItems_congr items agree]
  | .object members, agree => by
    rw [resolve, resolve, resolveMembers_congr members agree]

theorem resolveItems_congr {first second : Leaf → Except ε Template.Value} :
    ∀ items : List Deferred, (∀ leaf ∈ leavesOfItems items, first leaf = second leaf) →
      resolveItems first items = resolveItems second items
  | [], _ => rfl
  | item :: rest, agree => by
    have here := resolve_congr item
      (fun leaf member => agree leaf (List.mem_append_left _ member))
    have later := resolveItems_congr rest
      (fun leaf member => agree leaf (List.mem_append_right _ member))
    rw [resolveItems, resolveItems, here, later]

/-- Members come out alike where the views agree on their leaves. -/
theorem resolveMembers_congr {first second : Leaf → Except ε Template.Value} :
    ∀ members : List (String × Deferred),
      (∀ leaf ∈ leavesOfMembers members, first leaf = second leaf) →
      resolveMembers first members = resolveMembers second members
  | [], _ => rfl
  | (_, value) :: rest, agree => by
    have here := resolve_congr value
      (fun leaf member => agree leaf (List.mem_append_left _ member))
    have later := resolveMembers_congr rest
      (fun leaf member => agree leaf (List.mem_append_right _ member))
    rw [resolveMembers, resolveMembers, here, later]

end

/-! ### Results and errors -/

section

variable {view : Leaf → Except ε Template.Value} {cause : ε}

mutual

theorem leaf_of_resolve_ok : ∀ {value : Deferred} {result : Template.Value},
    value.resolve view = .ok result → ∀ leaf ∈ value.leaves, ∃ written, view leaf = .ok written
  | .literal _, _, _, _, member => nomatch member
  | .pseudo _, _, _, _, member => nomatch member
  | .leaf only, _, done, produced, member => by
    cases List.mem_singleton.mp member
    exact ⟨_, done⟩
  | .join _ parts, _, done, produced, member => by
    obtain ⟨_, doneParts, _⟩ := bind_eq_ok.mp done
    exact leaf_of_resolveItems_ok doneParts produced member
  | .select _ items, _, done, produced, member => by
    obtain ⟨_, doneItems, _⟩ := bind_eq_ok.mp done
    exact leaf_of_resolve_ok doneItems produced member
  | .split _ source, _, done, produced, member => by
    obtain ⟨_, doneSource, _⟩ := bind_eq_ok.mp done
    exact leaf_of_resolve_ok doneSource produced member
  | .list items, _, done, produced, member => by
    obtain ⟨_, doneItems, _⟩ := bind_eq_ok.mp done
    exact leaf_of_resolveItems_ok doneItems produced member
  | .object members, _, done, produced, member => by
    obtain ⟨_, doneMembers, _⟩ := bind_eq_ok.mp done
    exact leaf_of_resolveMembers_ok doneMembers produced member

theorem leaf_of_resolveItems_ok : ∀ {items : List Deferred} {results : List Template.Value},
    resolveItems view items = .ok results →
      ∀ leaf ∈ leavesOfItems items, ∃ written, view leaf = .ok written
  | [], _, _, _, member => nomatch member
  | item :: rest, _, done, produced, member => by
    obtain ⟨_, doneItem, done⟩ := bind_eq_ok.mp done
    obtain ⟨_, doneRest, _⟩ := bind_eq_ok.mp done
    rcases List.mem_append.mp member with here | later
    · exact leaf_of_resolve_ok doneItem produced here
    · exact leaf_of_resolveItems_ok doneRest produced later

/-- Members that have results have one for every leaf. -/
theorem leaf_of_resolveMembers_ok :
    ∀ {members : List (String × Deferred)} {results : List (String × Template.Value)},
      resolveMembers view members = .ok results →
        ∀ leaf ∈ leavesOfMembers members, ∃ written, view leaf = .ok written
  | [], _, _, _, member => nomatch member
  | (_, value) :: rest, _, done, produced, member => by
    obtain ⟨_, doneValue, done⟩ := bind_eq_ok.mp done
    obtain ⟨_, doneRest, _⟩ := bind_eq_ok.mp done
    rcases List.mem_append.mp member with here | later
    · exact leaf_of_resolve_ok doneValue produced here
    · exact leaf_of_resolveMembers_ok doneRest produced later

end

mutual

theorem leaf_of_resolve_error : ∀ {value : Deferred},
    value.resolve view = .error cause → ∃ leaf ∈ value.leaves, view leaf = .error cause
  | .literal _, failed => nomatch failed
  | .pseudo _, failed => nomatch failed
  | .leaf produced, failed => ⟨produced, List.mem_cons_self, failed⟩
  | .join _ _, failed => by
    rcases bind_eq_error.mp failed with inParts | ⟨_, _, never⟩
    · exact leaf_of_resolveItems_error inParts
    · cases never
  | .select _ _, failed => by
    rcases bind_eq_error.mp failed with inItems | ⟨_, _, never⟩
    · have found := leaf_of_resolve_error inItems
      exact found
    · cases never
  | .split _ _, failed => by
    rcases bind_eq_error.mp failed with inSource | ⟨_, _, never⟩
    · have found := leaf_of_resolve_error inSource
      exact found
    · cases never
  | .list _, failed => by
    rcases bind_eq_error.mp failed with inItems | ⟨_, _, never⟩
    · exact leaf_of_resolveItems_error inItems
    · cases never
  | .object _, failed => by
    rcases bind_eq_error.mp failed with inMembers | ⟨_, _, never⟩
    · exact leaf_of_resolveMembers_error inMembers
    · cases never

theorem leaf_of_resolveItems_error : ∀ {items : List Deferred},
    resolveItems view items = .error cause →
      ∃ leaf ∈ leavesOfItems items, view leaf = .error cause
  | [], failed => nomatch failed
  | item :: rest, failed => by
    rcases bind_eq_error.mp failed with here | ⟨_, _, failed⟩
    · obtain ⟨produced, member, failedThere⟩ := leaf_of_resolve_error here
      exact ⟨produced, List.mem_append_left _ member, failedThere⟩
    · rcases bind_eq_error.mp failed with later | ⟨_, _, never⟩
      · obtain ⟨produced, member, failedThere⟩ := leaf_of_resolveItems_error later
        exact ⟨produced, List.mem_append_right _ member, failedThere⟩
      · cases never

/-- Members fail with the error of a leaf. -/
theorem leaf_of_resolveMembers_error : ∀ {members : List (String × Deferred)},
    resolveMembers view members = .error cause →
      ∃ leaf ∈ leavesOfMembers members, view leaf = .error cause
  | [], failed => nomatch failed
  | (_, value) :: rest, failed => by
    rcases bind_eq_error.mp failed with here | ⟨_, _, failed⟩
    · obtain ⟨produced, member, failedThere⟩ := leaf_of_resolve_error here
      exact ⟨produced, List.mem_append_left _ member, failedThere⟩
    · rcases bind_eq_error.mp failed with later | ⟨_, _, never⟩
      · obtain ⟨produced, member, failedThere⟩ := leaf_of_resolveMembers_error later
        exact ⟨produced, List.mem_append_right _ member, failedThere⟩
      · cases never

end

end

end StackSynth.Deferred
