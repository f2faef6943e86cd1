/-
This file proves that routes lead where they should. The borders of a route follow each other: the
value stands in the stack that it crosses the next border from, out of nested stacks and into them
from the stack around, and across only between top-level stacks. So the route from a stack ends in
the stack that consumes the value, and every stack that names the value on the way stands around
the one or the other.
-/

import Mathlib.Data.List.Nodup
import StackSynth.Proofs.Construct.StackChain
import StackSynth.Proofs.Wiring.Journey

namespace StackSynth.Tree

open Outcome

variable {tree : Tree} {home goal stack parent shared : NodeId} {crossings : List Crossing}

/-- One border leads from a stack to a stack. -/
inductive Crosses (tree : Tree) : Crossing → NodeId → NodeId → Prop where
  | out {stack parent : NodeId} : tree.isStack stack = true →
    tree.parentStack? stack = some parent → Crosses tree (.out stack) stack parent
  | across {exporter importer : NodeId} :
    tree.isStack exporter = true → tree.parentStack? exporter = none →
    tree.isStack importer = true → tree.parentStack? importer = none →
    exporter ≠ importer → Crosses tree (.across exporter importer) exporter importer
  | into {stack parent : NodeId} : tree.isStack stack = true →
    tree.parentStack? stack = some parent → Crosses tree (.into stack) parent stack

/-- Borders lead from a stack to a stack, one after the other. -/
inductive Leads (tree : Tree) : NodeId → List Crossing → NodeId → Prop where
  | stay (stack : NodeId) : Leads tree stack [] stack
  | cross {start next goal : NodeId} {crossing : Crossing} {rest : List Crossing} :
    Crosses tree crossing start next → Leads tree next rest goal →
    Leads tree start (crossing :: rest) goal

namespace Leads

theorem one {crossing : Crossing} (crosses : tree.Crosses crossing home goal) :
    tree.Leads home [crossing] goal := .cross crosses (.stay goal)

theorem append {between : NodeId} {further : List Crossing}
    (first : tree.Leads home crossings between) (second : tree.Leads between further goal) :
    tree.Leads home (crossings ++ further) goal := by
  induction first with
  | stay => exact second
  | cross crosses _ inductionHypothesis => exact .cross crosses (inductionHypothesis second)

/-- Every border of the way is between stacks of the tree. -/
theorem crosses_of_mem {crossing : Crossing} (leads : tree.Leads home crossings goal)
    (member : crossing ∈ crossings) : ∃ start next, tree.Crosses crossing start next := by
  induction leads with
  | stay => cases member
  | cross crosses _ inductionHypothesis =>
    rcases List.mem_cons.mp member with rfl | later
    · exact ⟨_, _, crosses⟩
    · exact inductionHypothesis later

end Leads

/-- What every hop keeps holds at the end of a journey. -/
theorem journey_induction (holds : List Hop → NodeId → Passage → Prop)
    (kept : ∀ {hops start next crossing passage behind}, holds hops start passage →
      tree.Crosses crossing start next → tree.beyond passage crossing = .ok behind →
      holds (hops ++ [⟨crossing, passage⟩]) next behind) {crossings : List Crossing} :
    ∀ {before hops : List Hop} {start goal : NodeId} {passage final : Passage},
      holds before start passage → tree.Leads start crossings goal →
      tree.journey passage crossings = .ok (hops, final) → holds (before ++ hops) goal final := by
  induction crossings with
  | nil =>
    intro before hops start goal passage final atStart leads travelled
    cases travelled
    cases leads
    rwa [List.append_nil]
  | cons crossing rest inductionHypothesis =>
    intro before hops start goal passage final atStart leads travelled
    cases leads with
    | cross crosses leadsOn =>
      obtain ⟨behind, moved, travelled⟩ := bind_eq_ok.mp travelled
      obtain ⟨⟨further, last⟩, travelledOn, same⟩ := bind_eq_ok.mp travelled
      cases same
      have atEnd := inductionHypothesis (kept atStart crosses moved) leadsOn travelledOn
      rwa [List.append_assoc] at atEnd

/-! ### Up and down a chain -/

namespace WellFormed

variable (wellFormed : tree.WellFormed)
include wellFormed

/-- The first stacks of a chain lead up to the next one. -/
theorem leads_up (isStack : tree.isStack stack = true) {before after : List NodeId}
    (cut : tree.stackChain stack = before ++ shared :: after) :
    tree.Leads stack (before.map .out) shared := by
  refine wellFormed.cut_induction
    (motive := fun stack passed => tree.Leads stack (passed.map .out) shared)
    (fun _ _ => .stay shared) ?_ isStack cut
  intro stack parent passed isStack around leads
  exact .cross (.out isStack around) leads

/-- The first stacks of a chain, read backwards, lead down from the next one. -/
theorem leads_down (isStack : tree.isStack stack = true) {before after : List NodeId}
    (cut : tree.stackChain stack = before ++ shared :: after) :
    tree.Leads shared (before.reverse.map .into) stack := by
  refine wellFormed.cut_induction
    (motive := fun stack passed => tree.Leads shared (passed.reverse.map .into) stack)
    (fun _ _ => .stay shared) ?_ isStack cut
  intro stack parent passed isStack around leads
  rw [List.reverse_cons, List.map_append]
  exact leads.append (.one (.into isStack around))

end WellFormed

/-! ### Routes -/

/-- The stacks before a given one are cut off by looking for it. -/
theorem eq_takeWhile_append {nodes : List NodeId} (member : shared ∈ nodes) :
    ∃ after, nodes = nodes.takeWhile (· ≠ shared) ++ shared :: after := by
  induction nodes with
  | nil => cases member
  | cons head rest inductionHypothesis =>
    by_cases atHead : head = shared
    · exact ⟨rest, by simp [atHead]⟩
    · obtain ⟨after, cut⟩ :=
        inductionHypothesis ((List.mem_cons.mp member).resolve_left (Ne.symm atHead))
      refine ⟨after, ?_⟩
      rw [List.takeWhile_cons_of_pos (by simpa using atHead), List.cons_append, ← cut]

/-- What stands before the first that is looked for is not looked for. -/
theorem find?_before {looksFor : NodeId → Bool} {nodes : List NodeId}
    (found : nodes.find? looksFor = some shared) :
    ∀ stack ∈ nodes.takeWhile (· ≠ shared), looksFor stack = false := by
  obtain ⟨isShared, before, after, split, others⟩ := List.find?_eq_some_iff_append.mp found
  have notBefore : ∀ stack ∈ before, looksFor stack = false := by simpa using others
  have apart : ∀ stack ∈ before, decide (stack ≠ shared) = true := by
    intro stack member
    refine decide_eq_true fun same => ?_
    rw [← same, notBefore stack member] at isShared
    cases isShared
  have cut : nodes.takeWhile (· ≠ shared) = before := by
    rw [split, List.takeWhile_append_of_pos apart]
    simp
  rwa [cut]

theorem requireChain_eq_ok {chain : List NodeId} (required : tree.requireChain stack = .ok chain) :
    chain = tree.stackChain stack ∧ ∃ above, chain = stack :: above := by
  rw [requireChain] at required
  split at required
  · rename_i head
    cases required
    exact ⟨rfl, List.head?_eq_some_iff.mp head⟩
  · cases required

/-- How a route lies in the tree: up the chain of its home and down the chain of its goal, within
a top-level stack from where the chains first meet and otherwise from one top-level stack to the
other. -/
inductive Spans (tree : Tree) (home goal : NodeId) : Route → Prop where
  | stay : home = goal → Spans tree home goal .stay
  | within {up down above below : List NodeId} {shared : NodeId} :
    tree.stackChain home = up ++ shared :: above →
    tree.stackChain goal = down ++ shared :: below →
    (∀ stack ∈ up, stack ∉ tree.stackChain goal) →
    Spans tree home goal ⟨.within up down.reverse, up, none, down.reverse⟩
  | between {up down : List NodeId} {exporter importer : NodeId} :
    tree.stackChain home = up ++ [exporter] → tree.stackChain goal = down ++ [importer] →
    exporter ≠ importer →
    Spans tree home goal ⟨.crossTopLevelSibling, up, some (exporter, importer), down.reverse⟩

/-- Every route lies in the tree in one of these ways. -/
theorem spans_of_route {route : Route} (found : tree.route home goal = .ok route) :
    tree.Spans home goal route := by
  rw [Tree.route] at found
  by_cases same : home = goal
  · rw [if_pos same] at found
    cases found
    exact .stay same
  rw [if_neg same] at found
  obtain ⟨homeChain, homeRequired, found⟩ := bind_eq_ok.mp found
  obtain ⟨goalChain, goalRequired, found⟩ := bind_eq_ok.mp found
  obtain ⟨rfl, _⟩ := requireChain_eq_ok homeRequired
  obtain ⟨rfl, _⟩ := requireChain_eq_ok goalRequired
  split at found
  · rename_i homeTop goalTop lastHome lastGoal
    obtain ⟨up, homeCut⟩ := List.getLast?_eq_some_iff.mp lastHome
    obtain ⟨down, goalCut⟩ := List.getLast?_eq_some_iff.mp lastGoal
    split at found
    · rename_i apart
      cases found
      rw [homeCut, goalCut, List.dropLast_concat, List.dropLast_concat]
      exact .between homeCut goalCut apart
    · split at found
      · cases found
      · rename_i shared meets
        cases found
        obtain ⟨above, homeCut⟩ := eq_takeWhile_append (List.mem_of_find?_eq_some meets)
        have inGoal : shared ∈ tree.stackChain goal := by
          simpa using List.find?_some meets
        obtain ⟨below, goalCut⟩ := eq_takeWhile_append inGoal
        refine .within homeCut goalCut fun stack inUp atGoal => ?_
        have notInGoal := find?_before meets stack inUp
        rw [List.contains_iff_mem.mpr atGoal] at notInGoal
        cases notInGoal
  · cases found

/-- Only stacks have routes between them. -/
theorem isStack_of_route {route : Route} (found : tree.route home goal = .ok route)
    (apart : home ≠ goal) : tree.isStack home = true ∧ tree.isStack goal = true := by
  have isStack : ∀ {stack chain}, tree.requireChain stack = .ok chain →
      tree.isStack stack = true := by
    intro stack chain required
    obtain ⟨same, _, head⟩ := requireChain_eq_ok required
    exact isStack_of_mem_stackChain (same ▸ head ▸ List.mem_cons_self)
  rw [Tree.route, if_neg apart] at found
  obtain ⟨_, homeRequired, found⟩ := bind_eq_ok.mp found
  obtain ⟨_, goalRequired, _⟩ := bind_eq_ok.mp found
  exact ⟨isStack homeRequired, isStack goalRequired⟩

/-- A route leads from the home of a value to the stack that consumes it. -/
theorem WellFormed.leads_of_route (wellFormed : tree.WellFormed) {route : Route}
    (found : tree.route home goal = .ok route) : tree.Leads home route.crossings goal := by
  by_cases same : home = goal
  · rw [Tree.route, if_pos same] at found
    cases found
    rw [same]
    exact .stay goal
  obtain ⟨isStackHome, isStackGoal⟩ := isStack_of_route found same
  cases spans_of_route found with
  | stay atHome => exact absurd atHome same
  | within homeCut goalCut _ =>
    exact (wellFormed.leads_up isStackHome homeCut).append
      (wellFormed.leads_down isStackGoal goalCut)
  | @between up down exporter importer homeCut goalCut apart =>
    obtain ⟨isStackExporter, exporterChain⟩ := wellFormed.stackChain_cut isStackHome homeCut
    obtain ⟨isStackImporter, importerChain⟩ := wellFormed.stackChain_cut isStackGoal goalCut
    have exported : tree.Crosses (.across exporter importer) exporter importer :=
      .across isStackExporter (wellFormed.parentStack?_of_last isStackExporter exporterChain)
        isStackImporter (wellFormed.parentStack?_of_last isStackImporter importerChain) apart
    exact (wellFormed.leads_up isStackHome homeCut).append
      ((Leads.one exported).append (wellFormed.leads_down isStackGoal goalCut))

/-- The hops of a delivery cross borders of the tree. -/
theorem WellFormed.crosses_of_delivery (wellFormed : tree.WellFormed) {producer : Producer}
    {delivery : Delivery} (delivered : tree.delivery producer goal = .ok delivery) {hop : Hop}
    (isHop : hop ∈ delivery.hops) : ∃ start next, tree.Crosses hop.crossing start next := by
  obtain ⟨route, found, _, travelled⟩ := delivery_eq_ok delivered
  refine (wellFormed.leads_of_route found).crosses_of_mem ?_
  rw [← crossings_journey travelled]
  exact List.mem_map.mpr ⟨hop, isHop, rfl⟩

/-- A stack around two stacks has the top-level stack of both. -/
theorem WellFormed.not_mem_of_apart (wellFormed : tree.WellFormed)
    (isStackHome : tree.isStack home = true) (isStackGoal : tree.isStack goal = true)
    {up down : List NodeId} {exporter importer : NodeId}
    (homeCut : tree.stackChain home = up ++ [exporter])
    (goalCut : tree.stackChain goal = down ++ [importer]) (apart : exporter ≠ importer)
    (inHome : stack ∈ tree.stackChain home) : stack ∉ tree.stackChain goal := by
  intro inGoal
  have homeTop := wellFormed.topLevelOf?_of_mem isStackHome inHome
  have goalTop := wellFormed.topLevelOf?_of_mem isStackGoal inGoal
  have sameTop : tree.topLevelOf? home = tree.topLevelOf? goal := homeTop.symm.trans goalTop
  rw [topLevelOf?, topLevelOf?, homeCut, goalCut, List.getLast?_concat, List.getLast?_concat]
    at sameTop
  exact apart (Option.some.inj sameTop)

/-- The stacks that a route goes out of stand around its home and not around its goal. -/
theorem WellFormed.chains_of_up (wellFormed : tree.WellFormed) {route : Route}
    (found : tree.route home goal = .ok route) (member : stack ∈ route.up) :
    stack ∈ tree.stackChain home ∧ stack ∉ tree.stackChain goal := by
  by_cases same : home = goal
  · rw [Tree.route, if_pos same] at found
    cases found
    cases member
  obtain ⟨isStackHome, isStackGoal⟩ := isStack_of_route found same
  cases spans_of_route found with
  | stay => cases member
  | within homeCut _ first =>
    exact ⟨homeCut ▸ List.mem_append_left _ member, first stack member⟩
  | @between up down exporter importer homeCut goalCut apart =>
    have inHome : stack ∈ tree.stackChain home := homeCut ▸ List.mem_append_left _ member
    exact ⟨inHome,
      wellFormed.not_mem_of_apart isStackHome isStackGoal homeCut goalCut apart inHome⟩

/-- The stacks that a route goes into stand around its goal. -/
theorem chain_of_down {route : Route} (found : tree.route home goal = .ok route)
    (member : stack ∈ route.down) : stack ∈ tree.stackChain goal := by
  cases spans_of_route found with
  | stay => cases member
  | within _ goalCut =>
    rw [goalCut]
    exact List.mem_append_left _ (List.mem_reverse.mp member)
  | between _ goalCut =>
    rw [goalCut]
    exact List.mem_append_left _ (List.mem_reverse.mp member)

/-- No stack names a value twice on its way. -/
theorem WellFormed.nodup_holders (wellFormed : tree.WellFormed) {route : Route}
    (found : tree.route home goal = .ok route) :
    (route.crossings.map Crossing.holder).Nodup := by
  have chain := nodup_stackChain wellFormed.ordered
  rw [route.map_holder_crossings]
  cases spans_of_route found with
  | stay => exact List.nodup_nil
  | @within up down _ _ _ homeCut goalCut first =>
    have upOnce : up.Nodup := (List.nodup_append.mp (homeCut ▸ chain home)).1
    have downOnce : down.Nodup := (List.nodup_append.mp (goalCut ▸ chain goal)).1
    refine List.nodup_append.mpr ⟨upOnce, List.nodup_reverse.mpr downOnce, ?_⟩
    rintro stack inUp _ inDown rfl
    exact first stack inUp (goalCut ▸ List.mem_append_left _ (List.mem_reverse.mp inDown))
  | @between up down exporter importer homeCut goalCut apart =>
    have away : home ≠ goal := by
      rintro rfl
      rw [homeCut] at goalCut
      exact apart (List.cons.inj (List.append_inj' goalCut rfl).2).1
    obtain ⟨isStackHome, isStackGoal⟩ := isStack_of_route found away
    have downOnce : down.Nodup := (List.nodup_append.mp (goalCut ▸ chain goal)).1
    rw [Option.toList_some, List.map_singleton, ← List.append_assoc, ← homeCut]
    refine List.nodup_append.mpr ⟨chain home, List.nodup_reverse.mpr downOnce, ?_⟩
    rintro stack inHome _ inDown rfl
    exact wellFormed.not_mem_of_apart isStackHome isStackGoal homeCut goalCut apart inHome
      (goalCut ▸ List.mem_append_left _ (List.mem_reverse.mp inDown))

/-- The route from a stack to one that lies in a nested stack of it enters the nested stack
first. -/
theorem WellFormed.crossings_into (wellFormed : tree.WellFormed) {route : Route}
    (found : tree.route parent goal = .ok route) (isStack : tree.isStack stack = true)
    (around : tree.parentStack? stack = some parent) (inside : stack ∈ tree.stackChain goal) :
    ∃ rest, route.crossings = .into stack :: rest := by
  have isStackParent := isStack_of_parentStack? around
  have apart : parent ≠ goal := by
    rintro rfl
    have shallow := wellFormed.depth_le_of_mem isStackParent inside
    rw [wellFormed.depth_of_nested isStack around] at shallow
    exact absurd shallow (Nat.not_succ_le_self _)
  obtain ⟨_, isStackGoal⟩ := isStack_of_route found apart
  obtain ⟨before, after, cut⟩ := List.append_of_mem inside
  have chain := (wellFormed.stackChain_cut isStackGoal cut).2
  rw [wellFormed.stackChain_of_nested isStack around] at chain
  rw [← (List.cons.inj chain).2] at cut
  obtain ⟨above, chainParent⟩ := wellFormed.head_stackChain isStackParent
  have parentInGoal : parent ∈ tree.stackChain goal := by
    rw [cut, chainParent]
    simp
  cases spans_of_route found with
  | stay atHome => exact absurd atHome apart
  | @within up down _ below shared homeCut goalCut first =>
    cases up with
    | cons next rest =>
      rw [chainParent] at homeCut
      exact absurd parentInGoal (first parent ((List.cons.inj homeCut).1 ▸ List.mem_cons_self))
    | nil =>
      rw [chainParent] at homeCut
      obtain ⟨rfl, rfl⟩ := List.cons.inj homeCut
      have chainBelow := (wellFormed.stackChain_cut isStackGoal goalCut).2
      have goesDown : down = before ++ [stack] := by
        rw [goalCut, ← chainBelow, List.append_cons] at cut
        exact List.append_cancel_right cut
      refine ⟨before.reverse.map .into, ?_⟩
      simp [Route.crossings, goesDown]
  | between homeCut goalCut different =>
    have sameTop := wellFormed.topLevelOf?_of_mem isStackGoal parentInGoal
    rw [topLevelOf?, topLevelOf?, homeCut, goalCut, List.getLast?_concat, List.getLast?_concat]
      at sameTop
    exact absurd (Option.some.inj sameTop) different

/-- What names a value on its way stands around its home or around its goal. -/
theorem holder_mem_chains {route : Route} (found : tree.route home goal = .ok route)
    {crossing : Crossing} (member : crossing ∈ route.crossings) :
    crossing.holder ∈ tree.stackChain home ∨ crossing.holder ∈ tree.stackChain goal := by
  cases spans_of_route found with
  | stay => cases member
  | @within up down _ _ _ homeCut goalCut _ =>
    rw [homeCut, goalCut]
    rcases List.mem_append.mp member with goesUp | goesDown
    · obtain ⟨stack, inUp, rfl⟩ := List.mem_map.mp goesUp
      exact .inl (List.mem_append_left _ inUp)
    · obtain ⟨stack, inDown, rfl⟩ := List.mem_map.mp goesDown
      exact .inr (List.mem_append_left _ (List.mem_reverse.mp inDown))
  | @between up down exporter importer homeCut goalCut apart =>
    rw [homeCut, goalCut]
    rcases List.mem_append.mp member with goesUp | further
    · obtain ⟨stack, inUp, rfl⟩ := List.mem_map.mp goesUp
      exact .inl (List.mem_append_left _ inUp)
    · rcases List.mem_append.mp further with exports | goesDown
      · cases List.mem_singleton.mp exports
        exact .inl (List.mem_append_right _ List.mem_cons_self)
      · obtain ⟨stack, inDown, rfl⟩ := List.mem_map.mp goesDown
        exact .inr (List.mem_append_left _ (List.mem_reverse.mp inDown))

end StackSynth.Tree
