/-
This file proves that wiring is settled by which references are wired. A call for a reference that
was wired before finds all its names taken by itself or by whoever came first, and changes nothing.
And if no name is claimed for two values, nobody notices who came first, so the references can be
wired in any order.
-/

import StackSynth.Proofs.Deployment.Renumbering
import StackSynth.Proofs.Synthesis.Chains
import StackSynth.Proofs.Wiring.Calls

namespace StackSynth

open Outcome

variable {tree : Tree} {reference : Reference} {references others : List Reference}

/-- Insertions that agree leave every value under its key. -/
theorem SortedMap.get?_foldl_insert {κ ν : Type} [Ord κ] [Std.TransOrd κ] [Std.LawfulEqOrd κ]
    {entries : List (κ × ν)} {entry : κ × ν}
    (agree : ∀ first ∈ entries, ∀ second ∈ entries, first.1 = second.1 → first.2 = second.2)
    (member : entry ∈ entries) (map : SortedMap κ ν) :
    (entries.foldl (fun map entry => map.insert entry.1 entry.2) map).get? entry.1 =
      some entry.2 := by
  induction entries using List.reverseRecOn with
  | nil => cases member
  | append_singleton front last inductionHypothesis =>
    rw [List.foldl_append, List.foldl_cons, List.foldl_nil]
    by_cases atLast : entry.1 = last.1
    · rw [agree entry member last (List.mem_append_right _ List.mem_cons_self) atLast, atLast,
        get?_insert_self]
    · have inFront : entry ∈ front := (List.mem_append.mp member).resolve_right fun isLast =>
        atLast (congrArg Prod.fst (List.mem_singleton.mp isLast))
      rw [get?_insert_of_ne atLast]
      exact inductionHypothesis (fun first isFirst second isSecond =>
        agree first (List.mem_append_left _ isFirst) second (List.mem_append_left _ isSecond))
        inFront

/-! ### Agreement -/

/-- No name of a register is claimed for two values by references. -/
def Tree.Unambiguous (tree : Tree) (references : List Reference) : Prop :=
  ∀ first ∈ references.flatMap tree.hopsFor, ∀ second ∈ references.flatMap tree.hopsFor,
    first.crossing.register = second.crossing.register → first.name = second.name →
      first.passage.value = second.passage.value

/-- Where no register has a name twice, no name is claimed twice. -/
theorem Tree.unambiguous_of_named_once (distinct : ((references.flatMap tree.hopsFor).map
    (fun hop => (hop.crossing.register, hop.name))).Nodup) : tree.Unambiguous references := by
  intro first isFirst second isSecond sameRegister sameName
  rw [List.inj_on_of_nodup_map distinct isFirst isSecond (Prod.ext sameRegister sameName)]

/-- Hops that meet at a stack agree if no register has one of their names for two values. -/
theorem Hop.agrees_of_register {first second : Hop}
    {near far nearToo farToo : NodeId} (crosses : tree.Crosses first.crossing near far)
    (crossesToo : tree.Crosses second.crossing nearToo farToo)
    (together : first.crossing.holder = second.crossing.holder)
    (agree : first.crossing.register = second.crossing.register → first.name = second.name →
      first.passage.value = second.passage.value) : first.Agrees tree second := by
  constructor
  case supplied =>
    intro sameName value other supplied suppliedToo
    obtain ⟨crossing, passage⟩ := first
    obtain ⟨crossingToo, passageToo⟩ := second
    cases crossing with
    | out | across => cases supplied
    | into stack =>
      cases crossingToo with
      | out | across => cases suppliedToo
      | into stackToo =>
        cases supplied
        cases suppliedToo
        exact agree (congrArg Register.parameters together) sameName
  case shown =>
    intro sameName declaration other shown shownToo
    have sameRegister := Hop.register_eq_of_crosses crosses crossesToo together shown shownToo
    rw [Hop.output?_congr sameRegister sameName (agree sameRegister sameName), shownToo] at shown
    exact (Option.some.inj shown).symm

namespace Wiring

theorem ext_parts {first second : Wiring} (states : first.states = second.states)
    (table : first.table = second.table) (graph : first.graph = second.graph) : first = second := by
  cases first
  cases second
  cases states
  cases table
  cases graph
  rfl

theorem arrivals_agree (areReferences : ∀ reference ∈ references, tree.HasReference reference) :
    ∀ first ∈ references.filterMap tree.arrival?,
      ∀ second ∈ references.filterMap tree.arrival?, first.1 = second.1 → first.2 = second.2 := by
  intro first isFirst second isSecond same
  obtain ⟨reference, member, arrives⟩ := List.mem_filterMap.mp isFirst
  obtain ⟨other, memberToo, arrivesToo⟩ := List.mem_filterMap.mp isSecond
  exact Tree.arrival?_agrees (areReferences reference member) (areReferences other memberToo)
    arrives arrivesToo same

section Calls

variable (wellFormed : tree.WellFormed) (wiring : Wiring)
include wellFormed

/-! ### Calling again -/

/-- A call for a reference that was called for changes nothing. -/
theorem call_calls_of_mem
    (areReferences : ∀ reference ∈ references, tree.HasReference reference)
    (isOne : reference ∈ references) :
    (wiring.calls tree references).call tree reference = wiring.calls tree references := by
  have hops : ∀ hop ∈ tree.hopsFor reference, hop ∈ references.flatMap tree.hopsFor :=
    fun hop isHop => List.mem_flatMap.mpr ⟨reference, isOne, isHop⟩
  have states : ((wiring.calls tree references).call tree reference).states =
      (wiring.calls tree references).states := by
    rw [states_call wellFormed, states_calls wellFormed]
    exact foldl_noteIn_eq_self fun hop isHop => noted_foldl (hops hop isHop) wiring.states
  have table : ((wiring.calls tree references).call tree reference).table =
      (wiring.calls tree references).table := by
    rw [table_call wellFormed, table_calls wellFormed]
    cases arrives : tree.arrival? reference with
    | none => rfl
    | some arrival =>
      exact SortedMap.insert_eq_self (SortedMap.get?_foldl_insert
        (arrivals_agree areReferences)
        (List.mem_filterMap.mpr ⟨reference, isOne, arrives⟩) wiring.table)
  have graph : ((wiring.calls tree references).call tree reference).graph =
      (wiring.calls tree references).graph := by
    rw [graph_call wellFormed, graph_calls wellFormed]
    refine DeployGraph.addAll_of_dependsOn fun pair isPair => ?_
    obtain ⟨hop, isHop, adds⟩ := List.mem_filterMap.mp isPair
    exact DeployGraph.dependsOn_addAll.mpr
      (.inr (List.mem_filterMap.mpr ⟨hop, hops hop isHop, adds⟩))
  exact ext_parts states table graph

/-! ### Calling in another order -/

/-- What the stacks have got does not depend on the order of the calls. -/
theorem states_calls_perm (reordered : references.Perm others)
    (unambiguous : tree.Unambiguous references) :
    (wiring.calls tree others).states = (wiring.calls tree references).states := by
  rw [states_calls wellFormed, states_calls wellFormed]
  refine (foldl_noteIn_perm (reordered.flatMap_right tree.hopsFor) ?_ wiring.states).symm
  intro first isFirst second isSecond together
  obtain ⟨_, _, ofFirst⟩ := List.mem_flatMap.mp isFirst
  obtain ⟨_, _, ofSecond⟩ := List.mem_flatMap.mp isSecond
  obtain ⟨_, _, crosses⟩ := wellFormed.crosses_of_hopsFor ofFirst
  obtain ⟨_, _, crossesToo⟩ := wellFormed.crosses_of_hopsFor ofSecond
  exact Hop.agrees_of_register crosses crossesToo together
    (unambiguous first isFirst second isSecond)

/-- What is noted does not depend on the order of the calls. -/
theorem table_calls_perm
    (areReferences : ∀ reference ∈ references, tree.HasReference reference)
    (reordered : references.Perm others) :
    (wiring.calls tree others).table = (wiring.calls tree references).table := by
  rw [table_calls wellFormed, table_calls wellFormed]
  refine ((reordered.filterMap tree.arrival?).foldl_eq' ?_ wiring.table).symm
  exact fun first isFirst second isSecond _ => SortedMap.insert_comm
    (arrivals_agree areReferences first isFirst second isSecond)

/-- Which stack depends on which does not depend on the order of the calls. -/
theorem dependsOn_calls_perm (reordered : references.Perm others)
    (dependent dependency : NodeId) :
    (wiring.calls tree others).graph.DependsOn dependent dependency ↔
      (wiring.calls tree references).graph.DependsOn dependent dependency := by
  rw [graph_calls wellFormed, graph_calls wellFormed, DeployGraph.dependsOn_addAll,
    DeployGraph.dependsOn_addAll,
    ((reordered.flatMap_right tree.hopsFor).filterMap _).mem_iff]

end Calls

end Wiring

namespace Application

/-- A call for a reference that was called for before, at whatever time, changes nothing; and where
no name is claimed for two values, calls in any order leave the same in the stacks, the same in the
table, and the same dependencies. -/
theorem calls_repeat_and_commute (bundler : Asset.Bundler) (steps : List BuildStep)
    (wiring : Wiring) (references : List Reference)
    (areReferences : ∀ reference ∈ references,
      (build bundler steps).tree.HasReference reference) :
    (∀ reference ∈ references,
      (wiring.calls (build bundler steps).tree references).call (build bundler steps).tree
        reference = wiring.calls (build bundler steps).tree references) ∧
    ∀ others, references.Perm others → (build bundler steps).tree.Unambiguous references →
      (wiring.calls (build bundler steps).tree others).states =
          (wiring.calls (build bundler steps).tree references).states ∧
        (wiring.calls (build bundler steps).tree others).table =
          (wiring.calls (build bundler steps).tree references).table ∧
        ∀ edge, edge ∈ (wiring.calls (build bundler steps).tree others).graph.edges ↔
          edge ∈ (wiring.calls (build bundler steps).tree references).graph.edges := by
  have wellFormed := wellFormed_build bundler steps
  refine ⟨fun _ isOne => Wiring.call_calls_of_mem wellFormed wiring areReferences isOne,
    fun others reordered unambiguous =>
      ⟨Wiring.states_calls_perm wellFormed wiring reordered unambiguous,
        Wiring.table_calls_perm wellFormed wiring areReferences reordered, ?_⟩⟩
  rintro ⟨dependent, dependency⟩
  rw [DeployGraph.mem_edges, DeployGraph.mem_edges]
  exact Wiring.dependsOn_calls_perm wellFormed wiring reordered dependent dependency

/-- Two values of one resource take the same way, under different names, and can be called for in
either order. -/
theorem relayed_pair_repeats_and_commutes :
    ∃ first second,
      (build Asset.byPath relay).tree.referenceBetween (.construct 3 "Arn") 6 5 =
          .ok (some first) ∧
        (build Asset.byPath relay).tree.referenceBetween (.construct 3 "Ref") 6 5 =
          .ok (some second) ∧
        ((Wiring.start .empty).calls (build Asset.byPath relay).tree [first, second]).call
            (build Asset.byPath relay).tree first =
          (Wiring.start .empty).calls (build Asset.byPath relay).tree [first, second] ∧
        ((Wiring.start .empty).calls (build Asset.byPath relay).tree [second, first]).states =
          ((Wiring.start .empty).calls (build Asset.byPath relay).tree [first, second]).states := by
  have found : ((build Asset.byPath relay).tree.referenceBetween
      (.construct 3 "Arn") 6 5).toOption.join.bind (fun first =>
        ((build Asset.byPath relay).tree.referenceBetween
          (.construct 3 "Ref") 6 5).toOption.join.map (fun second =>
            decide ((([first, second].flatMap (build Asset.byPath relay).tree.hopsFor).map
              (fun hop => (hop.crossing.register, hop.name))).Nodup))) = some true := by
    decide +kernel
  obtain ⟨first, isFirst, found⟩ := Option.bind_eq_some_iff.mp found
  obtain ⟨second, isSecond, named⟩ := Option.map_eq_some_iff.mp found
  rw [Option.join_eq_some_iff] at isFirst isSecond
  have foundFirst := eq_ok_of_toOption isFirst
  have foundSecond := eq_ok_of_toOption isSecond
  have areReferences : ∀ reference ∈ [first, second],
      (build Asset.byPath relay).tree.HasReference reference := by
    intro reference member
    rcases List.mem_cons.mp member with rfl | member
    · exact ⟨_, _, _, foundFirst⟩
    · exact List.mem_singleton.mp member ▸ ⟨_, _, _, foundSecond⟩
  obtain ⟨repeats, commutes⟩ :=
    calls_repeat_and_commute Asset.byPath relay (.start .empty) [first, second] areReferences
  exact ⟨first, second, foundFirst, foundSecond, repeats first List.mem_cons_self,
    (commutes [second, first] (List.Perm.swap _ _ _)
      (Tree.unambiguous_of_named_once (of_decide_eq_true named))).1⟩

end Application

end StackSynth
