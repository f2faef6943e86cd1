/-
This file says where a leaf stands in a deferred value: it is the value, or it stands in a part of
it, at any depth. The list of leaves of a value holds exactly those that stand in it.
-/

import StackSynth.Deferred.Basic

namespace StackSynth.Deferred

/-- A leaf stands somewhere in a value. -/
inductive Occurs (leaf : Leaf) : Deferred → Prop where
  | leaf : Occurs leaf (.leaf leaf)
  | join {separator : String} {parts : List Deferred} {part : Deferred} : part ∈ parts →
    Occurs leaf part → Occurs leaf (.join separator parts)
  | select {index : Nat} {items : Deferred} : Occurs leaf items → Occurs leaf (.select index items)
  | split {separator : String} {source : Deferred} : Occurs leaf source →
    Occurs leaf (.split separator source)
  | list {items : List Deferred} {item : Deferred} : item ∈ items → Occurs leaf item →
    Occurs leaf (.list items)
  | object {members : List (String × Deferred)} {name : String} {value : Deferred} :
    (name, value) ∈ members → Occurs leaf value → Occurs leaf (.object members)

variable {leaf : Leaf}

mutual

/-- The leaves of a value are those that stand in it. -/
theorem mem_leaves : ∀ {value : Deferred}, leaf ∈ value.leaves ↔ value.Occurs leaf
  | .literal _ => iff_of_false List.not_mem_nil fun never => nomatch never
  | .pseudo _ => iff_of_false List.not_mem_nil fun never => nomatch never
  | .leaf produced => by
    rw [leaves, List.mem_singleton]
    constructor
    · rintro rfl
      exact .leaf
    · intro occurs
      cases occurs
      rfl
  | .join _ parts => by
    rw [leaves, mem_leavesOfItems]
    constructor
    · rintro ⟨part, member, occurs⟩
      exact .join member occurs
    · intro occurs
      cases occurs with
      | join member occurs => exact ⟨_, member, occurs⟩
  | .select _ items => by
    rw [leaves, mem_leaves]
    constructor
    · exact .select
    · intro occurs
      cases occurs with
      | select occurs => exact occurs
  | .split _ source => by
    rw [leaves, mem_leaves]
    constructor
    · exact .split
    · intro occurs
      cases occurs with
      | split occurs => exact occurs
  | .list items => by
    rw [leaves, mem_leavesOfItems]
    constructor
    · rintro ⟨item, member, occurs⟩
      exact .list member occurs
    · intro occurs
      cases occurs with
      | list member occurs => exact ⟨_, member, occurs⟩
  | .object members => by
    rw [leaves, mem_leavesOfMembers]
    constructor
    · rintro ⟨name, value, member, occurs⟩
      exact .object member occurs
    · intro occurs
      cases occurs with
      | object member occurs => exact ⟨_, _, member, occurs⟩

theorem mem_leavesOfItems : ∀ {items : List Deferred},
    leaf ∈ leavesOfItems items ↔ ∃ item ∈ items, item.Occurs leaf
  | [] => iff_of_false List.not_mem_nil fun ⟨_, never, _⟩ => nomatch never
  | item :: rest => by
    rw [leavesOfItems, List.mem_append, mem_leaves, mem_leavesOfItems]
    constructor
    · rintro (occurs | ⟨other, member, occurs⟩)
      · exact ⟨item, List.mem_cons_self, occurs⟩
      · exact ⟨other, List.mem_cons_of_mem _ member, occurs⟩
    · rintro ⟨other, member, occurs⟩
      rcases List.mem_cons.mp member with rfl | later
      · exact .inl occurs
      · exact .inr ⟨other, later, occurs⟩

theorem mem_leavesOfMembers : ∀ {members : List (String × Deferred)},
    leaf ∈ leavesOfMembers members ↔
      ∃ name value, (name, value) ∈ members ∧ value.Occurs leaf
  | [] => iff_of_false List.not_mem_nil fun ⟨_, _, never, _⟩ => nomatch never
  | (first, value) :: rest => by
    rw [leavesOfMembers, List.mem_append, mem_leaves, mem_leavesOfMembers]
    constructor
    · rintro (occurs | ⟨name, other, member, occurs⟩)
      · exact ⟨first, value, List.mem_cons_self, occurs⟩
      · exact ⟨name, other, List.mem_cons_of_mem _ member, occurs⟩
    · rintro ⟨name, other, member, occurs⟩
      rcases List.mem_cons.mp member with same | later
      · cases same
        exact .inl occurs
      · exact .inr ⟨name, other, later, occurs⟩

end

end StackSynth.Deferred
