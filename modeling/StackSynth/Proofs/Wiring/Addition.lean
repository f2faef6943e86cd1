/-
This file shows that wiring does not see a construct that consumes nothing. References come from
what constructs consume, and where their values come from and which way they take is read off the
constructs and stacks that were there before. So the references of the grown tree are those of the
tree itself, every delivery is the same, and what one wiring of the two leaves in a stack, the other
leaves there too.
-/

import Mathlib.Data.List.Basic
import StackSynth.Proofs.Construct.Addition
import StackSynth.Proofs.Wiring.Direction
import StackSynth.Proofs.Wiring.Finding
import StackSynth.Proofs.Wiring.Record
import StackSynth.Wiring.View

namespace StackSynth

open Outcome

variable {tree : Tree} {scope node consumer stack : NodeId} {id : String} {construct : Construct}
  {leaf : Leaf}

namespace Tree

/-! ### Origins -/

section Origins

variable (ordered : tree.Ordered)
include ordered

theorem constructProducer_withNew (within : node < tree.size) (attr : String) :
    (tree.withNew scope id construct).constructProducer node attr =
      tree.constructProducer node attr := by
  have alike := alikeBelow_withNew tree scope id construct
  simp only [constructProducer, get?_withNew_of_lt within, ← alike.stackOf? ordered within,
    logicalId_withNew ordered within, path_withNew ordered within,
    ← alike.pathComponents ordered within]

theorem stackProducer_withNew (within : node < tree.size) (attr : StackAttribute) :
    (tree.withNew scope id construct).stackProducer node attr = tree.stackProducer node attr := by
  have alike := alikeBelow_withNew tree scope id construct
  simp only [stackProducer, get?_withNew_of_lt within, ← alike.parentStack? ordered within,
    embeddingId_withNew ordered within, embeddingPath_withNew ordered within,
    path_withNew ordered within, ← alike.pathComponents ordered within]

/-- A value that has an origin has the same one in the grown tree; only the path of a stack that
does not exist may be another. -/
theorem producer_withNew (scope : NodeId) (id : String) (construct : Construct) {producer : Producer}
    (origin : tree.producer leaf = .ok producer) :
    ∃ grown, (tree.withNew scope id construct).producer leaf = .ok grown ∧
      grown.home = producer.home ∧ grown.native = producer.native ∧
      (producer.home < tree.size → grown = producer) := by
  have present : ∀ {node}, (∃ attr, tree.constructProducer node attr = .ok producer) ∨
      (∃ attr, tree.stackProducer node attr = .ok producer) → node < tree.size := by
    intro node origin
    by_contra outside
    have nowhere : tree.get? node = none := get?_of_size_le (Nat.le_of_not_lt outside)
    rcases origin with ⟨_, origin⟩ | ⟨_, origin⟩
    · rw [constructProducer, nowhere] at origin
      cases origin
    · rw [stackProducer, nowhere] at origin
      cases origin
  cases leaf with
  | construct node attr =>
    have within : node < tree.size := present (.inl ⟨attr, origin⟩)
    exact ⟨producer, (constructProducer_withNew ordered within attr).trans origin, rfl, rfl,
      fun _ => rfl⟩
  | asset top hash slot =>
    cases origin
    refine ⟨_, rfl, rfl, rfl, fun within => ?_⟩
    rw [← (alikeBelow_withNew tree scope id construct).pathComponents ordered within]
  | stack node attr =>
    have within : node < tree.size := present (.inr ⟨attr, origin⟩)
    exact ⟨producer, (stackProducer_withNew ordered within attr).trans origin, rfl, rfl,
      fun _ => rfl⟩

/-- What a stack can write it writes the same in the grown tree. -/
theorem view_withNew {table : SortedMap Consumption Template.Value} {value : Template.Value}
    (written : tree.view table stack leaf = .ok value) :
    (tree.withNew scope id construct).view table stack leaf = .ok value := by
  rw [view] at written ⊢
  split at written
  · exact written
  · obtain ⟨producer, origin, written⟩ := bind_eq_ok.mp written
    obtain ⟨grown, originToo, sameHome, sameNative, _⟩ :=
      producer_withNew ordered scope id construct origin
    refine bind_eq_ok.mpr ⟨grown, originToo, ?_⟩
    rw [sameHome, sameNative]
    split at written
    · rename_i atHome
      rw [if_pos atHome]
      exact written
    · rename_i away
      rw [if_neg away]
      split at written
      · exact written
      · cases written

end Origins

/-! ### References -/

theorem consumedBy_withNew (ordered : tree.Ordered) (noStack : construct.isStack = false)
    (within : node < tree.size) :
    (tree.withNew scope id construct).consumedBy node = tree.consumedBy node := by
  have alike := alikeBelow_withNew tree scope id construct
  simp only [consumedBy, get?_withNew_of_lt within, ← alike.stackOf? ordered within,
    ← alike.topLevelOf? ordered within, isNested_withNew noStack]

theorem Indigenous.withNew (ordered : tree.Ordered) (indigenous : tree.Indigenous leaf stack) :
    (tree.withNew scope id construct).Indigenous leaf stack := by
  rcases indigenous with own | ⟨producer, origin, atHome⟩
  · exact .inl own
  · obtain ⟨grown, originToo, sameHome, _, _⟩ :=
      producer_withNew ordered scope id construct origin
    exact .inr ⟨grown, originToo, sameHome.trans atHome⟩

theorem proper_withNew (ordered : tree.Ordered) {reference : Reference}
    (proper : reference.Proper tree) (within : reference.producer.home < tree.size) :
    reference.Proper (tree.withNew scope id construct) where
  notOwn := proper.notOwn
  origin := by
    obtain ⟨grown, originToo, _, _, same⟩ :=
      producer_withNew ordered scope id construct proper.origin
    rw [originToo, same within]
  away := proper.away

/-- References whose values are at home in the tree are found in the grown tree too. -/
theorem Finds.withNew (ordered : tree.Ordered) {seen leaves : List Leaf}
    {references : List Reference} (finds : tree.Finds consumer stack seen leaves references)
    (homes : ∀ reference ∈ references, reference.producer.home < tree.size) :
    (tree.withNew scope id construct).Finds consumer stack seen leaves references := by
  induction finds with
  | done => exact .done
  | met isSeen _ inductionHypothesis => exact .met isSeen (inductionHypothesis homes)
  | unneeded new atLeaf _ inductionHypothesis =>
    exact .unneeded new (referenceBetween_of_indigenous
      ((indigenous_of_referenceBetween atLeaf).withNew ordered)) (inductionHypothesis homes)
  | needed new atLeaf _ inductionHypothesis =>
    obtain ⟨atHead, later⟩ := List.forall_mem_cons.mp homes
    obtain rfl := consumer_of_referenceBetween atLeaf
    obtain ⟨proper, rfl, rfl⟩ := proper_of_referenceBetween atLeaf
    exact .needed new (referenceBetween_of_proper (proper_withNew ordered proper atHead))
      (inductionHypothesis later)

theorem referencesAmong_withNew (ordered : tree.Ordered) {seen leaves : List Leaf}
    {references : List Reference}
    (found : tree.referencesAmong consumer stack seen leaves = .ok references)
    (homes : ∀ reference ∈ references, reference.producer.home < tree.size) :
    (tree.withNew scope id construct).referencesAmong consumer stack seen leaves =
      .ok references :=
  referencesAmong_of_finds ((finds_of_referencesAmong found).withNew ordered homes)

theorem referencesOf_withNew (ordered : tree.Ordered) (noStack : construct.isStack = false)
    (within : node < tree.size) {references : List Reference}
    (found : tree.referencesOf node = .ok references)
    (homes : ∀ reference ∈ references, reference.producer.home < tree.size) :
    (tree.withNew scope id construct).referencesOf node = .ok references := by
  rw [referencesOf] at found ⊢
  rw [consumedBy_withNew ordered noStack within,
    ← (alikeBelow_withNew tree scope id construct).stackOf? ordered within]
  cases consumed : tree.consumedBy node with
  | nil =>
    rw [consumed] at found
    exact found
  | cons head rest =>
    rw [consumed] at found
    cases belongs : tree.stackOf? node with
    | none =>
      simp only [belongs] at found
      cases found
    | some stack =>
      simp only [belongs] at found
      exact referencesAmong_withNew ordered found homes

/-- All references of a tree are those of the tree with a construct that consumes nothing. -/
theorem references_withNew (wellFormed : tree.WellFormed)
    (admits : tree.Admits scope id construct) (noStack : construct.isStack = false)
    (consumesNothing : (tree.withNew scope id construct).consumedBy tree.size = [])
    {references : List Reference} (found : tree.references = .ok references)
    (homes : ∀ reference ∈ references, reference.producer.home < tree.size) :
    (tree.withNew scope id construct).references = .ok references := by
  obtain ⟨perNode, related, same⟩ := bind_eq_ok.mp found
  cases same
  have walk : (tree.withNew scope id construct).preorder.filter (· ≠ tree.size) = tree.preorder :=
    filter_below_withNew admits.scope _ (lt_of_get? wellFormed.root)
  have relatedToo : tree.preorder.mapM (tree.withNew scope id construct).referencesOf =
      .ok perNode := by
    refine mapM_eq_ok_of_imp related fun node listed ofNode isListed foundNode => ?_
    refine referencesOf_withNew wellFormed.ordered noStack (wellFormed.mem_preorder.mp listed)
      foundNode fun reference member => ?_
    exact homes reference (List.mem_flatten.mpr ⟨ofNode, isListed, member⟩)
  rw [← walk] at relatedToo
  obtain ⟨all, done, same⟩ := flatten_mapM_filter (fun node _ notKept => by
    have atNew : node = tree.size := by simpa using notKept
    rw [referencesOf, atNew, consumesNothing]) relatedToo
  exact bind_eq_ok.mpr ⟨all, done, congrArg _ same⟩

/-! ### Deliveries -/

section Deliveries

variable (ordered : tree.Ordered)
include ordered

theorem requireChain_withNew (within : stack < tree.size) :
    (tree.withNew scope id construct).requireChain stack = tree.requireChain stack := by
  rw [requireChain, requireChain,
    ← (alikeBelow_withNew tree scope id construct).stackChain ordered within,
    path_withNew ordered within]

theorem route_withNew {home : NodeId} (homeWithin : home < tree.size)
    (within : consumer < tree.size) :
    (tree.withNew scope id construct).route home consumer = tree.route home consumer := by
  rw [route, route, requireChain_withNew ordered homeWithin, requireChain_withNew ordered within]

theorem beyond_withNew {crossing : Crossing} (within : crossing.holder < tree.size)
    (passage : Passage) :
    (tree.withNew scope id construct).beyond passage crossing = tree.beyond passage crossing := by
  have alike := alikeBelow_withNew tree scope id construct
  cases crossing with
  | out stack =>
    replace within : stack < tree.size := within
    simp only [beyond, embeddingId_withNew ordered within, embeddingPath_withNew ordered within,
      path_withNew ordered within]
  | across exporter importer =>
    replace within : exporter < tree.size := within
    rw [beyond, beyond, ← alike.stackName ordered within]
  | into stack =>
    replace within : stack < tree.size := within
    rw [beyond, beyond, ← alike.pathComponents ordered within]

theorem journey_withNew {crossings : List Crossing}
    (within : ∀ crossing ∈ crossings, crossing.holder < tree.size) :
    ∀ passage, (tree.withNew scope id construct).journey passage crossings =
      tree.journey passage crossings := by
  induction crossings with
  | nil => exact fun _ => rfl
  | cons crossing rest inductionHypothesis =>
    intro passage
    rw [journey, journey, beyond_withNew ordered (within crossing List.mem_cons_self)]
    simp only [inductionHypothesis fun other member => within other (List.mem_cons_of_mem _ member)]

/-- Between stacks that were there before, every border is one of a stack that was. -/
theorem holder_lt {route : Route} {home : NodeId} (homeWithin : home < tree.size)
    (within : consumer < tree.size) (found : tree.route home consumer = .ok route)
    {crossing : Crossing} (crossed : crossing ∈ route.crossings) :
    crossing.holder < tree.size := by
  rcases holder_mem_chains found crossed with aroundHome | aroundConsumer
  · exact Nat.lt_of_le_of_lt (le_of_mem_ancestors ordered (List.mem_filter.mp aroundHome).1)
      homeWithin
  · exact Nat.lt_of_le_of_lt (le_of_mem_ancestors ordered (List.mem_filter.mp aroundConsumer).1)
      within

theorem delivery_withNew {producer : Producer} (homeWithin : producer.home < tree.size)
    (within : consumer < tree.size) :
    (tree.withNew scope id construct).delivery producer consumer =
      tree.delivery producer consumer := by
  rw [delivery, delivery, route_withNew ordered homeWithin within]
  cases found : tree.route producer.home consumer with
  | error cause => rfl
  | ok route =>
    simp only [bind, Except.bind,
      journey_withNew ordered fun crossing => holder_lt ordered homeWithin within found]

end Deliveries

end Tree

namespace Wiring

section

variable (ordered : tree.Ordered)
include ordered

theorem record_withNew {hop : Hop} (within : hop.crossing.holder < tree.size) (wiring : Wiring) :
    wiring.record (tree.withNew scope id construct) hop = wiring.record tree hop := by
  obtain ⟨crossing, passage⟩ := hop
  cases crossing with
  | across exporter importer =>
    replace within : exporter < tree.size := within
    simp only [record, ← (Tree.alikeBelow_withNew tree scope id construct).stackName ordered within]
  | out stack => simp only [record]
  | into stack => simp only [record]

/-- Wiring a reference between stacks that were there before is the same in the grown tree. -/
theorem wire_withNew {reference : Reference} (homeWithin : reference.producer.home < tree.size)
    (within : reference.consumerStack < tree.size) (wiring : Wiring) :
    wiring.wire (tree.withNew scope id construct) reference = wiring.wire tree reference := by
  rw [wire_eq, wire_eq, Tree.delivery_withNew ordered homeWithin within]
  cases delivered : tree.delivery reference.producer reference.consumerStack with
  | error cause => rw [Except.map, Except.map]
  | ok delivery =>
    obtain ⟨route, found, _, travelled⟩ := Tree.delivery_eq_ok delivered
    have holders : ∀ hop ∈ delivery.hops, hop.crossing.holder < tree.size := by
      intro hop member
      refine Tree.holder_lt ordered homeWithin within found ?_
      rw [← Tree.crossings_journey travelled]
      exact List.mem_map.mpr ⟨hop, member, rfl⟩
    have sameRecord : delivery.hops.foldl (record (tree.withNew scope id construct)) wiring =
        delivery.hops.foldl (record tree) wiring :=
      List.foldl_ext _ _ _ fun state hop member => record_withNew ordered (holders hop member) state
    rw [Except.map, Except.map, enter, enter, sameRecord]

theorem wireAll_withNew {references : List Reference}
    (within : ∀ reference ∈ references,
      reference.producer.home < tree.size ∧ reference.consumerStack < tree.size) :
    ∀ wiring : Wiring, wiring.wireAll (tree.withNew scope id construct) references =
      wiring.wireAll tree references := by
  induction references with
  | nil => exact fun _ => rfl
  | cons reference rest inductionHypothesis =>
    intro wiring
    obtain ⟨homeWithin, consumerWithin⟩ := within reference List.mem_cons_self
    have others := inductionHypothesis fun other member =>
      within other (List.mem_cons_of_mem _ member)
    rw [wireAll, wireAll, wire_withNew ordered homeWithin consumerWithin]
    simp only [others]

end

/-! ### What wiring leaves in a stack -/

/-- Two wirings that do not differ in a stack. -/
structure Agree (stack : NodeId) (first second : Wiring) : Prop where
  own : first.stateOf stack = second.stateOf stack
  table : ∀ leaf, first.table.get? (leaf, stack) = second.table.get? (leaf, stack)

namespace Agree

variable {first second : Wiring}

theorem foldl_record (agree : Agree stack first second) (tree : Tree) (hops : List Hop) :
    Agree stack (hops.foldl (record tree) first) (hops.foldl (record tree) second) := by
  refine List.foldl_rel (r := Agree stack) agree fun hop _ one other agree => ⟨?_, fun leaf => ?_⟩
  · rw [stateOf_record, stateOf_record, agree.own]
  · rw [table_record, table_record]
    exact agree.table leaf

theorem enter (agree : Agree stack first second) (tree : Tree) (consumption : Consumption)
    (delivery : Delivery) :
    Agree stack (first.enter tree consumption delivery)
      (second.enter tree consumption delivery) where
  own := (agree.foldl_record tree delivery.hops).own
  table leaf := by
    show (first.table.insert consumption _).get? _ = (second.table.insert consumption _).get? _
    by_cases here : (leaf, stack) = consumption
    · rw [here, SortedMap.get?_insert_self, SortedMap.get?_insert_self]
    · rw [SortedMap.get?_insert_of_ne here, SortedMap.get?_insert_of_ne here]
      exact agree.table leaf

/-- Wirings that agree on a stack agree on it after the same references. -/
theorem wireAll {references : List Reference} :
    ∀ {first second after last : Wiring} {wired others : List (Reference × Boundary)},
      Agree stack first second → first.wireAll tree references = .ok (wired, after) →
      second.wireAll tree references = .ok (others, last) → Agree stack after last := by
  induction references with
  | nil =>
    intro first second after last wired others agree done doneToo
    cases done
    cases doneToo
    exact agree
  | cons reference rest inductionHypothesis =>
    intro first second after last wired others agree done doneToo
    obtain ⟨delivery, _, delivered, doneRest, _⟩ := wireAll_cons_eq_ok done
    obtain ⟨deliveryToo, _, deliveredToo, doneRestToo, _⟩ := wireAll_cons_eq_ok doneToo
    rw [delivered] at deliveredToo
    cases deliveredToo
    exact inductionHypothesis (agree.enter tree _ delivery) doneRest doneRestToo

end Agree

end Wiring

end StackSynth
