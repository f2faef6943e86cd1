/-
This file proves what is found when references are looked for. Of the leaves that a construct
consumes, each is the identity of its stack, at home in its stack, or the leaf of a reference that
was found; and a reference that was found is one between its leaf and the stack that consumes it.
-/

import StackSynth.Proofs.Construct.Traversal
import StackSynth.Wiring.Reference

namespace StackSynth

open Outcome

variable {tree : Tree} {leaf : Leaf} {consumer stack : NodeId} {reference : Reference}

/-- A reference is what is found between its leaf and the stack that consumes it. -/
structure Reference.Proper (tree : Tree) (reference : Reference) : Prop where
  notOwn : (reference.leaf.ownIdentity? reference.consumerStack).isSome = false
  origin : tree.producer reference.leaf = .ok reference.producer
  away : reference.producer.home ≠ reference.consumerStack

/-- A leaf for which a stack needs no wiring. -/
def Tree.Indigenous (tree : Tree) (leaf : Leaf) (stack : NodeId) : Prop :=
  (leaf.ownIdentity? stack).isSome = true ∨
    ∃ producer, tree.producer leaf = .ok producer ∧ producer.home = stack

namespace Tree

theorem indigenous_of_referenceBetween
    (found : tree.referenceBetween leaf consumer stack = .ok none) :
    tree.Indigenous leaf stack := by
  rw [referenceBetween] at found
  split at found
  · rename_i own
    exact .inl own
  · obtain ⟨producer, origin, found⟩ := bind_eq_ok.mp found
    split at found
    · rename_i atHome
      exact .inr ⟨producer, origin, atHome⟩
    · cases found

theorem proper_of_referenceBetween
    (found : tree.referenceBetween leaf consumer stack = .ok (some reference)) :
    reference.Proper tree ∧ reference.leaf = leaf ∧ reference.consumerStack = stack := by
  rw [referenceBetween] at found
  split at found
  · cases found
  · rename_i notOwn
    obtain ⟨producer, origin, found⟩ := bind_eq_ok.mp found
    split at found
    · cases found
    · rename_i away
      cases found
      exact ⟨⟨by simpa using notOwn, origin, away⟩, rfl, rfl⟩

theorem consumer_of_referenceBetween
    (found : tree.referenceBetween leaf consumer stack = .ok (some reference)) :
    reference.consumer = consumer := by
  rw [referenceBetween] at found
  split at found
  · cases found
  · obtain ⟨_, _, found⟩ := bind_eq_ok.mp found
    split at found <;> cases found
    rfl

theorem referenceBetween_of_indigenous (indigenous : tree.Indigenous leaf stack) :
    tree.referenceBetween leaf consumer stack = .ok none := by
  rw [referenceBetween]
  split
  · rfl
  · rename_i notOwn
    rcases indigenous with own | ⟨producer, origin, atHome⟩
    · exact absurd own notOwn
    · exact bind_eq_ok.mpr ⟨producer, origin, by rw [if_pos atHome]; rfl⟩

theorem referenceBetween_of_proper (proper : reference.Proper tree) :
    tree.referenceBetween reference.leaf reference.consumer reference.consumerStack =
      .ok (some reference) := by
  rw [referenceBetween, proper.notOwn, proper.origin]
  exact if_neg proper.away

/-- What comes of the search for references: each leaf was met before, needs no wiring, or has a
reference, and is then met. -/
inductive Finds (tree : Tree) (consumer stack : NodeId) :
    List Leaf → List Leaf → List Reference → Prop where
  | done {seen : List Leaf} : Finds tree consumer stack seen [] []
  | met {seen rest : List Leaf} {leaf : Leaf} {references : List Reference} :
    leaf ∈ seen → Finds tree consumer stack seen rest references →
    Finds tree consumer stack seen (leaf :: rest) references
  | unneeded {seen rest : List Leaf} {leaf : Leaf} {references : List Reference} :
    leaf ∉ seen → tree.referenceBetween leaf consumer stack = .ok none →
    Finds tree consumer stack seen rest references →
    Finds tree consumer stack seen (leaf :: rest) references
  | needed {seen rest : List Leaf} {leaf : Leaf} {reference : Reference}
    {references : List Reference} :
    leaf ∉ seen → tree.referenceBetween leaf consumer stack = .ok (some reference) →
    Finds tree consumer stack (leaf :: seen) rest references →
    Finds tree consumer stack seen (leaf :: rest) (reference :: references)

theorem finds_of_referencesAmong {leaves : List Leaf} :
    ∀ {seen : List Leaf} {references : List Reference},
      tree.referencesAmong consumer stack seen leaves = .ok references →
      tree.Finds consumer stack seen leaves references := by
  induction leaves with
  | nil =>
    intro seen references found
    cases found
    exact .done
  | cons leaf rest inductionHypothesis =>
    intro seen references found
    rw [referencesAmong] at found
    split at found
    · rename_i met
      exact .met (List.contains_iff_mem.mp met) (inductionHypothesis found)
    · rename_i notMet
      have new : leaf ∉ seen := fun member => notMet (List.contains_iff_mem.mpr member)
      obtain ⟨between, atLeaf, found⟩ := bind_eq_ok.mp found
      cases between with
      | none => exact .unneeded new atLeaf (inductionHypothesis found)
      | some reference =>
        obtain ⟨further, foundFurther, same⟩ := bind_eq_ok.mp found
        cases same
        exact .needed new atLeaf (inductionHypothesis foundFurther)

theorem referencesAmong_of_finds {seen leaves : List Leaf} {references : List Reference}
    (finds : tree.Finds consumer stack seen leaves references) :
    tree.referencesAmong consumer stack seen leaves = .ok references := by
  induction finds with
  | done => rfl
  | met isSeen _ inductionHypothesis =>
    rw [referencesAmong, if_pos (List.contains_iff_mem.mpr isSeen), inductionHypothesis]
  | unneeded new atLeaf _ inductionHypothesis =>
    rw [referencesAmong, if_neg (fun met => new (List.contains_iff_mem.mp met))]
    exact bind_eq_ok.mpr ⟨none, atLeaf, inductionHypothesis⟩
  | needed new atLeaf _ inductionHypothesis =>
    rw [referencesAmong, if_neg (fun met => new (List.contains_iff_mem.mp met))]
    exact bind_eq_ok.mpr ⟨_, atLeaf, bind_eq_ok.mpr ⟨_, inductionHypothesis, rfl⟩⟩

/-- Each leaf that was not met before is indigenous or has a reference. -/
theorem Finds.covers {seen leaves : List Leaf} {references : List Reference}
    (finds : tree.Finds consumer stack seen leaves references) : ∀ leaf ∈ leaves,
      leaf ∈ seen ∨ tree.Indigenous leaf stack ∨
        ∃ reference ∈ references, reference.leaf = leaf := by
  induction finds with
  | done => exact fun _ never => nomatch never
  | met isSeen _ inductionHypothesis =>
    exact List.forall_mem_cons.mpr ⟨.inl isSeen, inductionHypothesis⟩
  | unneeded _ atLeaf _ inductionHypothesis =>
    exact List.forall_mem_cons.mpr
      ⟨.inr (.inl (indigenous_of_referenceBetween atLeaf)), inductionHypothesis⟩
  | @needed _ _ head reference _ _ atLeaf _ inductionHypothesis =>
    have sameLeaf := (proper_of_referenceBetween atLeaf).2.1
    refine List.forall_mem_cons.mpr
      ⟨.inr (.inr ⟨reference, List.mem_cons_self, sameLeaf⟩), fun leaf member => ?_⟩
    rcases inductionHypothesis leaf member with inSeen | indigenous | ⟨other, isFound, sameOther⟩
    · rcases List.mem_cons.mp inSeen with rfl | before
      · exact .inr (.inr ⟨reference, List.mem_cons_self, sameLeaf⟩)
      · exact .inl before
    · exact .inr (.inl indigenous)
    · exact .inr (.inr ⟨other, List.mem_cons_of_mem _ isFound, sameOther⟩)

/-- What is found are references between the leaves and the stack. -/
theorem Finds.between {seen leaves : List Leaf} {references : List Reference}
    (finds : tree.Finds consumer stack seen leaves references) : ∀ reference ∈ references,
      ∃ leaf ∈ leaves, tree.referenceBetween leaf consumer stack = .ok (some reference) := by
  have widened : ∀ {head : Leaf} {rest : List Leaf} {reference : Reference},
      (∃ leaf ∈ rest, tree.referenceBetween leaf consumer stack = .ok (some reference)) →
      ∃ leaf ∈ head :: rest, tree.referenceBetween leaf consumer stack = .ok (some reference) :=
    fun ⟨leaf, member, atLeaf⟩ => ⟨leaf, List.mem_cons_of_mem _ member, atLeaf⟩
  induction finds with
  | done => exact fun _ never => nomatch never
  | met _ _ inductionHypothesis | unneeded _ _ _ inductionHypothesis =>
    exact fun reference member => widened (inductionHypothesis reference member)
  | needed _ atLeaf _ inductionHypothesis =>
    exact List.forall_mem_cons.mpr ⟨⟨_, List.mem_cons_self, atLeaf⟩,
      fun reference member => widened (inductionHypothesis reference member)⟩

/-- Among the leaves that a construct consumes, each that was not seen before is indigenous or has
a reference, and each reference is a proper one for the stack. -/
theorem referencesAmong_eq_ok {seen leaves : List Leaf} {references : List Reference}
    (found : tree.referencesAmong consumer stack seen leaves = .ok references) :
    (∀ leaf ∈ leaves, leaf ∈ seen ∨ tree.Indigenous leaf stack ∨
        ∃ reference ∈ references, reference.leaf = leaf) ∧
      ∀ reference ∈ references, reference.Proper tree ∧ reference.leaf ∈ leaves ∧
        reference.consumerStack = stack := by
  have finds := finds_of_referencesAmong found
  refine ⟨finds.covers, fun reference member => ?_⟩
  obtain ⟨leaf, consumed, atLeaf⟩ := finds.between reference member
  obtain ⟨proper, rfl, sameStack⟩ := proper_of_referenceBetween atLeaf
  exact ⟨proper, consumed, sameStack⟩

/-- A construct that consumes something is in the tree. -/
theorem lt_of_consumedBy {node : NodeId} (consumed : leaf ∈ tree.consumedBy node) :
    node < tree.size := by
  by_contra outside
  have nowhere : tree.get? node = none := get?_of_size_le (Nat.le_of_not_lt outside)
  rw [consumedBy, nowhere] at consumed
  cases consumed

theorem referencesOf_eq_ok {node : NodeId} {references : List Reference}
    (found : tree.referencesOf node = .ok references) :
    (∀ stack, tree.stackOf? node = some stack → ∀ leaf ∈ tree.consumedBy node,
      tree.Indigenous leaf stack ∨
        ∃ reference ∈ references, reference.leaf = leaf ∧ reference.consumerStack = stack) ∧
    ∀ reference ∈ references, reference.Proper tree ∧
      tree.stackOf? node = some reference.consumerStack ∧ reference.leaf ∈ tree.consumedBy node := by
  rw [referencesOf] at found
  split at found
  · rename_i nothing
    cases found
    exact ⟨fun _ _ _ never => (nomatch nothing ▸ never), fun _ never => (nomatch never)⟩
  · split at found
    · rename_i stack belongs
      obtain ⟨all, proper⟩ := referencesAmong_eq_ok found
      refine ⟨fun other belongsOther leaf member => ?_, fun reference member => ?_⟩
      · rw [belongs] at belongsOther
        cases belongsOther
        rcases all leaf member with never | indigenous | ⟨reference, isFound, sameLeaf⟩
        · cases never
        · exact .inl indigenous
        · exact .inr ⟨reference, isFound, sameLeaf, (proper reference isFound).2.2⟩
      · obtain ⟨isProper, consumed, sameStack⟩ := proper reference member
        exact ⟨isProper, sameStack ▸ belongs, consumed⟩
    · cases found

/-- All that constructs consume is indigenous or has a reference, and each reference is a proper
one to a construct that consumes its leaf. -/
theorem WellFormed.references_eq_ok (wellFormed : tree.WellFormed) {references : List Reference}
    (found : tree.references = .ok references) :
    (∀ node stack, tree.stackOf? node = some stack → ∀ leaf ∈ tree.consumedBy node,
      tree.Indigenous leaf stack ∨
        ∃ reference ∈ references, reference.leaf = leaf ∧ reference.consumerStack = stack) ∧
    ∀ reference ∈ references, reference.Proper tree ∧
      ∃ node, tree.stackOf? node = some reference.consumerStack ∧
        reference.leaf ∈ tree.consumedBy node := by
  obtain ⟨perNode, related, same⟩ := bind_eq_ok.mp found
  cases same
  obtain ⟨all, only⟩ := mem_of_mapM_eq_ok related
  refine ⟨fun node stack belongs leaf member => ?_, fun reference member => ?_⟩
  · have within := wellFormed.mem_preorder.mpr (lt_of_consumedBy member)
    obtain ⟨ofNode, isListed, foundNode⟩ := all node within
    rcases (referencesOf_eq_ok foundNode).1 stack belongs leaf member with
      indigenous | ⟨reference, isFound, rest⟩
    · exact .inl indigenous
    · exact .inr ⟨reference, List.mem_flatten.mpr ⟨ofNode, isListed, isFound⟩, rest⟩
  · obtain ⟨ofNode, isListed, isFound⟩ := List.mem_flatten.mp member
    obtain ⟨node, _, foundNode⟩ := only ofNode isListed
    obtain ⟨isProper, belongs, consumed⟩ := (referencesOf_eq_ok foundNode).2 reference isFound
    exact ⟨isProper, node, belongs, consumed⟩

end Tree

end StackSynth
