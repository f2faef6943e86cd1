/-
This file tells where the references come from that a preparation wires. First come those of the
application, in the order in which they are found. Each turn of the loop then adds those that bring
the address of a template to where it is embedded, and these ask for slots of assets only and stay
within their top-level stack.
-/

import StackSynth.Proofs.Synthesis.Preparation

namespace StackSynth

open Outcome

namespace Prepared

/-- A reference that brings the address of an embedded template to the stack around it. -/
structure ForAddress (tree : Tree) (reference : Reference) (nested top : NodeId)
    (hash : ContentHash) (slot : Asset.Slot) : Prop where
  isNested : tree.isNested nested = true
  around : tree.parentStack? nested = some reference.consumerStack
  outermost : tree.topLevelOf? nested = some top
  leaf : reference.leaf = .asset top hash slot

/-- The references of the application, and the further ones that were made for addresses. -/
structure Provenance (tree : Tree) (prepared : Prepared) (own further : List (Reference × Boundary)) :
    Prop where
  split : prepared.wired = own ++ further
  found : tree.references = .ok (own.map (·.1))
  addresses : ∀ entry ∈ further, ∃ nested top hash slot,
    ForAddress tree entry.1 nested top hash slot

variable {tree : Tree} {bundler : Asset.Bundler} {prepared next started : Prepared}
  {stack : NodeId} {own further : List (Reference × Boundary)} {app : Application}

theorem provenance_start (start : start app = .ok started) :
    started.Provenance app.tree started.wired [] := by
  obtain ⟨references, wired, wiring, found, wiredAll, rfl⟩ := start_eq_ok start
  obtain ⟨_, listed⟩ := Wiring.accounts_wireAll (.start app.tree _) wiredAll
  constructor
  case split => exact (List.append_nil _).symm
  case found => exact listed ▸ found
  case addresses => exact fun _ never => nomatch never

/-- A turn adds references for one address. -/
theorem Provenance.turn (provenance : prepared.Provenance tree own further)
    (isNested : tree.isNested stack = true)
    (turned : embed tree bundler prepared stack = .ok next)
    (accounts : prepared.wiring.Accounts tree prepared.wired) :
    ∃ more, next.Provenance tree own (further ++ more) := by
  obtain ⟨embedded, top, parent, hash, references, wired, turn⟩ := turn_of_embed turned
  obtain ⟨_, listed⟩ := Wiring.accounts_wireAll accounts turn.wiring
  refine ⟨wired, ?_⟩
  constructor
  case split => rw [turn.wiredAfter, provenance.split, List.append_assoc]
  case found => exact provenance.found
  case addresses =>
    intro entry member
    rcases List.mem_append.mp member with early | late
    · exact provenance.addresses entry early
    · have isFound : entry.1 ∈ references := listed ▸ List.mem_map.mpr ⟨entry, late, rfl⟩
      obtain ⟨_, inLocation, atParent⟩ :=
        (Tree.referencesAmong_eq_ok turn.found).2 entry.1 isFound
      rw [turn.location] at inLocation
      obtain ⟨slot, leaf⟩ := Asset.Handle.leaf_of_webUrl inLocation
      exact ⟨stack, top, hash, slot, isNested, atParent ▸ turn.around, turn.outermost, leaf⟩

theorem exists_provenance (wellFormed : app.tree.WellFormed)
    (ready : app.prepare bundler = .ok prepared) :
    ∃ own further, prepared.Provenance app.tree own further := by
  obtain ⟨started, start, run, _⟩ := prepare_eq_ok ready
  suffices both : (∃ further, prepared.Provenance app.tree started.wired further) ∧
      prepared.wiring.Accounts app.tree prepared.wired from ⟨started.wired, both.1⟩
  refine foldlM_invariant (fun _ state =>
    (∃ further, state.Provenance app.tree started.wired further) ∧
      state.wiring.Accounts app.tree state.wired) ?_
    ⟨⟨[], provenance_start start⟩, (sound_start wellFormed start).accounts⟩ run
  intro before stack after state next split ⟨⟨further, provenance⟩, accounts⟩ turned
  have isNested := isNested_of_turn wellFormed split
  obtain ⟨more, provenanceNext⟩ := provenance.turn isNested turned accounts
  obtain ⟨_, _, _, _, _, wired, turn⟩ := turn_of_embed turned
  obtain ⟨accountsNext, _⟩ := Wiring.accounts_wireAll accounts turn.wiring
  exact ⟨⟨further ++ more, provenanceNext⟩, turn.wiredAfter ▸ accountsNext⟩

/-- Whatever is wired is consumed by a construct, or is a slot of an asset. -/
theorem Provenance.consumed_or_slot (provenance : prepared.Provenance tree own further)
    (wellFormed : tree.WellFormed) {entry : Reference × Boundary}
    (member : entry ∈ prepared.wired) :
    (∃ node, tree.stackOf? node = some entry.1.consumerStack ∧
        entry.1.leaf ∈ tree.consumedBy node) ∨
      ∃ top hash slot, entry.1.leaf = .asset top hash slot := by
  rw [provenance.split] at member
  rcases List.mem_append.mp member with isOwn | isFurther
  · obtain ⟨_, proper⟩ := wellFormed.references_eq_ok provenance.found
    exact .inl (proper entry.1 (List.mem_map.mpr ⟨entry, isOwn, rfl⟩)).2
  · obtain ⟨_, top, hash, slot, forAddress⟩ := provenance.addresses entry isFurther
    exact .inr ⟨top, hash, slot, forAddress.leaf⟩

end Prepared

end StackSynth
