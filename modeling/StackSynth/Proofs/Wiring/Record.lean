/-
This file proves that wiring keeps an honest record. Whatever a stack receives or shows was put
there by a hop under its name, and every hop finds its name there; only whose value it is may be
another, since the first hop of a name decides. And the table holds, for every reference wired,
how its delivery ends. All of it is kept by every hop and every reference, whatever their order.
-/

import StackSynth.Proofs.Wiring.Journey

namespace StackSynth

open Outcome

variable {tree : Tree} {wiring after : Wiring} {made : Hop → Prop} {hop : Hop} {stack : NodeId}

/-! ### Offers -/

namespace SortedMap

section Offer

variable {ν : Type} {entries : SortedMap String ν} {name other : String} {offered : Option ν}

/-- What a map holds after an addition that respects what is there. -/
theorem of_get?_insertIfNew {value found : ν}
    (holds : (entries.insertIfNew name value).get? other = some found) :
    entries.get? other = some found ∨ (other = name ∧ value = found) := by
  by_cases same : other = name
  · subst same
    rw [get?_insertIfNew_self] at holds
    cases before : entries.get? other with
    | none =>
      rw [before] at holds
      exact .inr ⟨rfl, Option.some.inj holds⟩
    | some old =>
      rw [before] at holds
      exact .inl holds
  · rw [get?_insertIfNew_of_ne same] at holds
    exact .inl holds

/-- The entries after a value is offered under a name, if one is: it is taken where the name is
free. -/
def offer (entries : SortedMap String ν) (name : String) : Option ν → SortedMap String ν
  | some value => entries.insertIfNew name value
  | none => entries

theorem of_get?_offer {found : ν} (holds : (entries.offer name offered).get? other = some found) :
    entries.get? other = some found ∨ (name = other ∧ offered = some found) := by
  cases offered with
  | none => exact .inl holds
  | some value =>
    exact (of_get?_insertIfNew holds).imp_right fun both => ⟨both.1.symm, congrArg some both.2⟩

theorem contains_offer (known : entries.contains other = true) :
    (entries.offer name offered).contains other = true := by
  cases offered with
  | none => exact known
  | some value => exact contains_insertIfNew.mpr (.inr known)

theorem contains_offer_self (value : ν) : (entries.offer name (some value)).contains name = true :=
  contains_insertIfNew.mpr (.inl rfl)

/-- An offer changes nothing where nothing is offered or the name is taken. -/
theorem offer_eq_self_iff : entries.offer name offered = entries ↔
    ∀ value, offered = some value → entries.contains name = true := by
  constructor
  · rintro same value rfl
    rw [← same]
    exact contains_offer_self value
  · intro taken
    cases offered with
    | none => rfl
    | some value => exact if_pos (taken value rfl)

/-- Offers that agree under one name can be made in either order. -/
theorem offer_comm {offeredToo : Option ν}
    (agree : name = other → ∀ {value second}, offered = some value → offeredToo = some second →
      value = second) :
    (entries.offer name offered).offer other offeredToo =
      (entries.offer other offeredToo).offer name offered := by
  cases offered with
  | none => rfl
  | some value =>
    cases offeredToo with
    | none => rfl
    | some second => exact insertIfNew_comm fun same => agree same rfl rfl

end Offer

end SortedMap

/-! ### What a hop changes -/

namespace StackWiring

/-- What a stack has got after a hop at one of its borders. -/
def note (tree : Tree) (state : StackWiring) (hop : Hop) : StackWiring :=
  let received :=
    match hop.supplied? with
    | some value => state.receive hop.name value
    | none => state
  match hop.output? tree with
  | some declaration => received.declare hop.name declaration
  | none => received

theorem received_note (tree : Tree) (hop : Hop) (state : StackWiring) :
    (state.note tree hop).received = state.received.offer hop.name hop.supplied? := by
  obtain ⟨crossing, passage⟩ := hop
  cases crossing with
  | into stack => exact received_receive _ _ _
  | out | across => rfl

theorem outputs_note (tree : Tree) (hop : Hop) (state : StackWiring) :
    (state.note tree hop).outputs = state.outputs.offer hop.name (hop.output? tree) := by
  obtain ⟨crossing, passage⟩ := hop
  cases crossing with
  | into stack => exact outputs_receive _ _ _
  | out | across => rfl

end StackWiring

namespace Wiring

theorem stateOf_update (wiring : Wiring) (stack other : NodeId)
    (change : StackWiring → StackWiring) :
    (wiring.update stack change).stateOf other =
      if other = stack then change (wiring.stateOf stack) else wiring.stateOf other := by
  rw [stateOf, update]
  by_cases same : other = stack
  · rw [if_pos same, same, SortedMap.get?_insert_self]
    rfl
  · rw [if_neg same, SortedMap.get?_insert_of_ne same]
    rfl

theorem states_record (tree : Tree) (wiring : Wiring) (hop : Hop) :
    (wiring.record tree hop).states =
      (wiring.update hop.crossing.holder (·.note tree hop)).states := by
  obtain ⟨crossing, passage⟩ := hop
  cases crossing <;> rfl

/-- A hop changes the stack that names it and no other. -/
theorem stateOf_record (tree : Tree) (wiring : Wiring) (hop : Hop) (stack : NodeId) :
    (wiring.record tree hop).stateOf stack =
      if stack = hop.crossing.holder then (wiring.stateOf stack).note tree hop
      else wiring.stateOf stack := by
  rw [stateOf, states_record, ← stateOf, stateOf_update]
  by_cases same : stack = hop.crossing.holder
  · rw [if_pos same, if_pos same, same]
  · rw [if_neg same, if_neg same]

theorem stateOf_foldl_record (tree : Tree) {hops : List Hop}
    (elsewhere : ∀ hop ∈ hops, hop.crossing.holder ≠ stack) (wiring : Wiring) :
    (hops.foldl (record tree) wiring).stateOf stack = wiring.stateOf stack := by
  refine List.foldlRecOn hops
    (motive := fun current : Wiring => current.stateOf stack = wiring.stateOf stack) _ rfl
    fun current unchanged hop member => ?_
  rw [stateOf_record, if_neg (Ne.symm (elsewhere hop member)), unchanged]

section Register

variable {ν : Type} (look : StackWiring → SortedMap String ν) {offered : Option ν} {name : String}
  (notes : ∀ state, look (state.note tree hop) = (look state).offer hop.name offered)
include notes

/-- What a stack has got it had before a hop, or the hop has brought it. -/
theorem of_get?_record {value : ν}
    (holds : (look ((wiring.record tree hop).stateOf stack)).get? name = some value) :
    (look (wiring.stateOf stack)).get? name = some value ∨
      hop.crossing.holder = stack ∧ hop.name = name ∧ offered = some value := by
  rw [stateOf_record] at holds
  split at holds
  · rename_i atHolder
    rw [notes] at holds
    exact (SortedMap.of_get?_offer holds).imp_right fun brought => ⟨atHolder.symm, brought⟩
  · exact .inl holds

/-- A hop finds its name in the stack that names it. -/
theorem exists_get?_record_self {value : ν} (brings : offered = some value) :
    ∃ first, (look ((wiring.record tree hop).stateOf hop.crossing.holder)).get? hop.name =
      some first := by
  rw [stateOf_record, if_pos rfl, notes, brings]
  exact ⟨_, SortedMap.get?_insertIfNew_self _ _ _⟩

/-- No hop takes a name away. -/
theorem exists_get?_record (known : ∃ first, (look (wiring.stateOf stack)).get? name = some first) :
    ∃ first, (look ((wiring.record tree hop).stateOf stack)).get? name = some first := by
  rw [stateOf_record]
  split
  · rw [notes]
    rw [← Option.isSome_iff_exists] at known ⊢
    exact SortedMap.contains_offer known
  · exact known

end Register

/-! ### What is on record -/

/-- The stacks hold what hops have brought and nothing else. -/
structure Records (tree : Tree) (made : Hop → Prop) (wiring : Wiring) : Prop where
  received : ∀ {stack name value}, (wiring.stateOf stack).received.get? name = some value →
    ∃ hop, made hop ∧ hop.crossing.holder = stack ∧ hop.name = name ∧ hop.supplied? = some value
  receives : ∀ {hop value}, made hop → hop.supplied? = some value →
    ∃ first, (wiring.stateOf hop.crossing.holder).received.get? hop.name = some first
  shown : ∀ {stack name declaration},
    (wiring.stateOf stack).outputs.get? name = some declaration →
    ∃ hop, made hop ∧ hop.crossing.holder = stack ∧ hop.name = name ∧
      hop.output? tree = some declaration
  shows : ∀ {hop declaration}, made hop → hop.output? tree = some declaration →
    ∃ first, (wiring.stateOf hop.crossing.holder).outputs.get? hop.name = some first

end Wiring

namespace Wiring.Records

/-- Recording a hop keeps the record. -/
theorem record (records : wiring.Records tree made) (hop : Hop) :
    (wiring.record tree hop).Records tree (fun other => made other ∨ other = hop) where
  received := by
    intro stack name value holds
    rcases of_get?_record StackWiring.received (StackWiring.received_note tree hop) holds with
      held | brought
    · obtain ⟨other, known, rest⟩ := records.received held
      exact ⟨other, .inl known, rest⟩
    · exact ⟨hop, .inr rfl, brought⟩
  receives := by
    intro other value known supply
    rcases known with before | rfl
    · exact exists_get?_record StackWiring.received (StackWiring.received_note tree hop)
        (records.receives before supply)
    · exact exists_get?_record_self StackWiring.received (StackWiring.received_note tree other)
        supply
  shown := by
    intro stack name declaration holds
    rcases of_get?_record StackWiring.outputs (StackWiring.outputs_note tree hop) holds with
      held | brought
    · obtain ⟨other, known, rest⟩ := records.shown held
      exact ⟨other, .inl known, rest⟩
    · exact ⟨hop, .inr rfl, brought⟩
  shows := by
    intro other declaration known declares
    rcases known with before | rfl
    · exact exists_get?_record StackWiring.outputs (StackWiring.outputs_note tree hop)
        (records.shows before declares)
    · exact exists_get?_record_self StackWiring.outputs (StackWiring.outputs_note tree other)
        declares

/-- Recording hops keeps the record. -/
theorem foldl (hops : List Hop) :
    ∀ {wiring : Wiring} {made : Hop → Prop}, wiring.Records tree made →
      (hops.foldl (Wiring.record tree) wiring).Records tree
        (fun other => made other ∨ other ∈ hops) := by
  induction hops with
  | nil =>
    intro wiring made records
    simpa using records
  | cons hop rest inductionHypothesis =>
    intro wiring made records
    rw [List.foldl_cons]
    simpa only [List.mem_cons, or_assoc] using inductionHypothesis (records.record hop)

end Wiring.Records

/-! ### What references bring -/

/-- The hops that wired references made. -/
def Tree.Made (tree : Tree) (wired : List (Reference × Boundary)) (hop : Hop) : Prop :=
  ∃ entry ∈ wired, ∃ delivery,
    tree.delivery entry.1.producer entry.1.consumerStack = .ok delivery ∧ hop ∈ delivery.hops

/-- One more reference makes the hops of its delivery. -/
theorem Tree.made_append {wired : List (Reference × Boundary)} {reference : Reference}
    {delivery : Delivery}
    (delivered : tree.delivery reference.producer reference.consumerStack = .ok delivery) :
    tree.Made (wired ++ [(reference, delivery.boundary)]) =
      fun hop => tree.Made wired hop ∨ hop ∈ delivery.hops := by
  funext hop
  refine propext ⟨?_, ?_⟩
  · rintro ⟨entry, member, other, sameDelivery, inHops⟩
    rcases List.mem_append.mp member with before | atLast
    · exact .inl ⟨entry, before, other, sameDelivery, inHops⟩
    · cases List.mem_singleton.mp atLast
      rw [delivered] at sameDelivery
      cases sameDelivery
      exact .inr inHops
  · rintro (⟨entry, member, rest⟩ | inHops)
    · exact ⟨entry, List.mem_append_left _ member, rest⟩
    · exact ⟨_, List.mem_append_right _ List.mem_cons_self, delivery, delivered, inHops⟩

namespace Wiring

/-- The wiring holds the deliveries of the wired references and nothing else. -/
structure Accounts (tree : Tree) (wired : List (Reference × Boundary)) (wiring : Wiring) :
    Prop where
  delivered : ∀ {entry}, entry ∈ wired → ∃ delivery,
    tree.delivery entry.1.producer entry.1.consumerStack = .ok delivery ∧
      entry.2 = delivery.boundary
  records : wiring.Records tree (tree.Made wired)
  noted : ∀ {leaf stack value}, wiring.table.get? (leaf, stack) = some value →
    ∃ entry ∈ wired, entry.1.leaf = leaf ∧ entry.1.consumerStack = stack ∧ ∃ delivery,
      tree.delivery entry.1.producer entry.1.consumerStack = .ok delivery ∧
        delivery.final.value = value
  notes : ∀ {entry}, entry ∈ wired →
    ∃ value, wiring.table.get? (entry.1.leaf, entry.1.consumerStack) = some value

namespace Accounts

theorem start (tree : Tree) (graph : DeployGraph) : (Wiring.start graph).Accounts tree [] where
  delivered member := nomatch member
  records :=
    { received := fun holds => nomatch holds
      receives := fun ⟨_, member, _⟩ => nomatch member
      shown := fun holds => nomatch holds
      shows := fun ⟨_, member, _⟩ => nomatch member }
  noted holds := nomatch holds
  notes member := nomatch member

variable {wired : List (Reference × Boundary)} {reference : Reference}

/-- Entering a delivery keeps the account. -/
theorem enter {delivery : Delivery} (accounts : wiring.Accounts tree wired)
    (delivered : tree.delivery reference.producer reference.consumerStack = .ok delivery) :
    (wiring.enter tree (reference.leaf, reference.consumerStack) delivery).Accounts tree
      (wired ++ [(reference, delivery.boundary)]) where
  delivered := by
    intro entry member
    rcases List.mem_append.mp member with before | atLast
    · exact accounts.delivered before
    · cases List.mem_singleton.mp atLast
      exact ⟨delivery, delivered, rfl⟩
  records := by
    have folded := accounts.records.foldl delivery.hops
    rw [← Tree.made_append delivered] at folded
    exact ⟨folded.received, folded.receives, folded.shown, folded.shows⟩
  noted := by
    intro leaf stack value holds
    by_cases here : (leaf, stack) = (reference.leaf, reference.consumerStack)
    · rw [here] at holds
      cases here
      have atEnd := (SortedMap.get?_insert_self wiring.table
        (reference.leaf, reference.consumerStack) delivery.final.value).symm.trans holds
      exact ⟨_, List.mem_append_right _ List.mem_cons_self, rfl, rfl, delivery, delivered,
        Option.some.inj atEnd⟩
    · have before : wiring.table.get? (leaf, stack) = some value :=
        (SortedMap.get?_insert_of_ne here).symm.trans holds
      obtain ⟨entry, member, rest⟩ := accounts.noted before
      exact ⟨entry, List.mem_append_left _ member, rest⟩
  notes := by
    intro entry member
    by_cases here :
        (entry.1.leaf, entry.1.consumerStack) = (reference.leaf, reference.consumerStack)
    · rw [here]
      exact ⟨_, SortedMap.get?_insert_self wiring.table _ delivery.final.value⟩
    · rcases List.mem_append.mp member with before | atLast
      · obtain ⟨value, holds⟩ := accounts.notes before
        exact ⟨value, (SortedMap.get?_insert_of_ne here).trans holds⟩
      · cases List.mem_singleton.mp atLast
        exact absurd rfl here

end Accounts

/-- Wiring references one after the other enters their deliveries. -/
theorem wireAll_cons_eq_ok {reference : Reference} {rest : List Reference}
    {wired : List (Reference × Boundary)}
    (done : wiring.wireAll tree (reference :: rest) = .ok (wired, after)) :
    ∃ delivery further, tree.delivery reference.producer reference.consumerStack = .ok delivery ∧
      (wiring.enter tree (reference.leaf, reference.consumerStack) delivery).wireAll tree rest =
        .ok (further, after) ∧
      wired = (reference, delivery.boundary) :: further := by
  rw [wireAll, wire_eq] at done
  cases delivered : tree.delivery reference.producer reference.consumerStack with
  | error cause =>
    rw [delivered] at done
    cases done
  | ok delivery =>
    rw [delivered] at done
    cases doneRest : wireAll tree
      (wiring.enter tree (reference.leaf, reference.consumerStack) delivery) rest with
    | error cause =>
      simp only [Except.map, bind, Except.bind, doneRest] at done
      cases done
    | ok last =>
      simp only [Except.map, bind, Except.bind, doneRest] at done
      cases done
      exact ⟨delivery, last.1, rfl, doneRest, rfl⟩

/-- Wiring references keeps the account, with the references wired in order. -/
theorem accounts_wireAll {references : List Reference} :
    ∀ {wiring : Wiring} {before wired : List (Reference × Boundary)},
      wiring.Accounts tree before → wiring.wireAll tree references = .ok (wired, after) →
      after.Accounts tree (before ++ wired) ∧ wired.map (·.1) = references := by
  induction references with
  | nil =>
    intro wiring before wired accounts done
    cases done
    exact ⟨by rwa [List.append_nil], rfl⟩
  | cons reference rest inductionHypothesis =>
    intro wiring before wired accounts done
    obtain ⟨delivery, further, delivered, doneRest, rfl⟩ := wireAll_cons_eq_ok done
    obtain ⟨accountsAfter, listed⟩ := inductionHypothesis (accounts.enter delivered) doneRest
    refine ⟨?_, by rw [List.map_cons, listed]⟩
    rwa [List.append_assoc] at accountsAfter

/-! ### What stays as it is -/

/-- What entering deliveries keeps, wiring references keeps. -/
theorem wireAll_induction {holds : Wiring → Prop} {references : List Reference}
    {wired : List (Reference × Boundary)}
    (kept : ∀ reference ∈ references, ∀ wiring delivery, holds wiring →
      tree.delivery reference.producer reference.consumerStack = .ok delivery →
      holds (wiring.enter tree (reference.leaf, reference.consumerStack) delivery))
    (atStart : holds wiring) (done : wiring.wireAll tree references = .ok (wired, after)) :
    holds after := by
  induction references generalizing wiring wired with
  | nil =>
    cases done
    exact atStart
  | cons reference rest inductionHypothesis =>
    obtain ⟨delivery, further, delivered, doneRest, _⟩ := wireAll_cons_eq_ok done
    exact inductionHypothesis
      (fun other later => kept other (List.mem_cons_of_mem _ later))
      (kept reference List.mem_cons_self wiring delivery atStart delivered) doneRest

variable {references : List Reference} {wired : List (Reference × Boundary)}
  (done : wiring.wireAll tree references = .ok (wired, after))
include done

/-- What is noted stays noted. -/
theorem exists_table_wireAll {consumption : Consumption}
    (known : ∃ value, wiring.table.get? consumption = some value) :
    ∃ value, after.table.get? consumption = some value := by
  refine @wireAll_induction _ _ _ (fun state => ∃ value, state.table.get? consumption = some value)
    _ _ (fun reference _ state delivery held _ => ?_) known done
  by_cases here : consumption = (reference.leaf, reference.consumerStack)
  · rw [here]
    exact ⟨delivery.final.value, SortedMap.get?_insert_self _ _ _⟩
  · obtain ⟨value, held⟩ := held
    exact ⟨value, (SortedMap.get?_insert_of_ne here).trans held⟩

/-- Nothing is noted for a stack that consumes none of the references. -/
theorem table_wireAll (apart : ∀ reference ∈ references, reference.consumerStack ≠ stack)
    (leaf : Leaf) : after.table.get? (leaf, stack) = wiring.table.get? (leaf, stack) := by
  refine @wireAll_induction _ _ _
    (fun state => state.table.get? (leaf, stack) = wiring.table.get? (leaf, stack)) _ _
    (fun reference member state delivery held _ => ?_) rfl done
  refine (SortedMap.get?_insert_of_ne ?_).trans held
  intro same
  exact apart reference member (congrArg Prod.snd same).symm

/-- A stack that names none of the values gets nothing. -/
theorem stateOf_wireAll
    (apart : ∀ reference ∈ references, ∀ delivery,
      tree.delivery reference.producer reference.consumerStack = .ok delivery →
      ∀ hop ∈ delivery.hops, hop.crossing.holder ≠ stack) :
    after.stateOf stack = wiring.stateOf stack := by
  refine @wireAll_induction _ _ _ (fun state => state.stateOf stack = wiring.stateOf stack) _ _
    (fun reference member state delivery held delivered => ?_) rfl done
  exact (stateOf_foldl_record tree (apart reference member delivery delivered) state).trans held

end Wiring

end StackSynth
