/-
This file proves that exactly the references that there are are found. A construct consumes the
leaves that stand in its values, and a container image in a nested stack its own name. Such a leaf
is a reference unless it is the identity of the stack of the construct or at home there; each is
found once, in the order of the tree and, within a construct, in the order in which its leaves are
first met. The search fails exactly if a leaf that is not such an identity has no origin.
-/

import StackSynth.Proofs.Application.Building
import StackSynth.Proofs.Construct.Preorder
import StackSynth.Proofs.Deferred.Occurring
import StackSynth.Proofs.Deferred.Places
import StackSynth.Proofs.Firsts
import StackSynth.Proofs.Wiring.Finding

namespace StackSynth

open Outcome

variable {tree : Tree} {leaf : Leaf} {consumer node stack : NodeId} {reference : Reference}
  {references : List Reference} {cause : ResolveError}

namespace Tree

/-! ### What constructs consume -/

/-- A construct consumes a leaf that stands in a property of a resource or in the value of an
output; a container image in a nested stack consumes its own name. -/
inductive Consumes (tree : Tree) (node : NodeId) : Leaf → Prop where
  | property {found : Node} {resource : Resource} {name : String} {value : Deferred} {leaf : Leaf} :
    tree.get? node = some found → found.construct = .resource resource →
    (name, value) ∈ resource.properties → value.Occurs leaf → Consumes tree node leaf
  | output {found : Node} {spec : OutputSpec} {leaf : Leaf} : tree.get? node = some found →
    found.construct = .output spec → spec.value.Occurs leaf → Consumes tree node leaf
  | image {found : Node} {hash : ContentHash} {stack top : NodeId} : tree.get? node = some found →
    found.construct = .asset hash .containerImage → tree.stackOf? node = some stack →
    tree.isNested stack = true → tree.topLevelOf? node = some top →
    Consumes tree node (.asset top hash .imageName)

/-- All that a construct consumes from, as one value: the properties of a resource, the value of an
output, and the own name of a container image in a nested stack. -/
inductive Reads (tree : Tree) (node : NodeId) : Deferred → Prop where
  | properties {found : Node} {resource : Resource} : tree.get? node = some found →
    found.construct = .resource resource → Reads tree node (.object resource.properties)
  | output {found : Node} {spec : OutputSpec} : tree.get? node = some found →
    found.construct = .output spec → Reads tree node spec.value
  | image {found : Node} {hash : ContentHash} {stack top : NodeId} : tree.get? node = some found →
    found.construct = .asset hash .containerImage → tree.stackOf? node = some stack →
    tree.isNested stack = true → tree.topLevelOf? node = some top →
    Reads tree node (.leaf (.asset top hash .imageName))

theorem Reads.consumedBy_eq {value : Deferred} (reads : tree.Reads node value) :
    tree.consumedBy node = value.leaves := by
  cases reads with
  | properties place shape =>
    rw [consumedBy, place, Option.map_some, shape]
    rfl
  | output place shape => rw [consumedBy, place, Option.map_some, shape]
  | image place shape belongs isNested atTop =>
    rw [consumedBy, place, Option.map_some, shape]
    simp only [belongs, atTop, isNested, if_true]
    rfl

theorem exists_reads (consumed : leaf ∈ tree.consumedBy node) :
    ∃ value, tree.Reads node value := by
  rw [consumedBy] at consumed
  cases place : tree.get? node with
  | none =>
    rw [place] at consumed
    cases consumed
  | some found =>
    rw [place, Option.map_some] at consumed
    cases shape : found.construct with
    | resource resource => exact ⟨_, .properties place shape⟩
    | output spec => exact ⟨_, .output place shape⟩
    | asset hash packaging =>
      rw [shape] at consumed
      cases packaging with
      | file => cases consumed
      | containerImage =>
        dsimp only at consumed
        split at consumed
        · rename_i stack top belongs atTop
          split at consumed
          · rename_i isNested
            exact ⟨_, .image place shape belongs isNested atTop⟩
          · cases consumed
        · cases consumed
    | _ =>
      rw [shape] at consumed
      cases consumed

theorem consumes_iff : tree.Consumes node leaf ↔ leaf ∈ tree.consumedBy node := by
  constructor
  · intro consumes
    cases consumes with
    | property place shape member occurs =>
      rw [(Reads.properties place shape).consumedBy_eq]
      exact Deferred.mem_leaves.mpr (.object member occurs)
    | output place shape occurs =>
      rw [(Reads.output place shape).consumedBy_eq]
      exact Deferred.mem_leaves.mpr occurs
    | image place shape belongs isNested atTop =>
      rw [(Reads.image place shape belongs isNested atTop).consumedBy_eq]
      exact Deferred.mem_leaves.mpr .leaf
  · intro consumed
    obtain ⟨value, reads⟩ := exists_reads consumed
    rw [reads.consumedBy_eq] at consumed
    have occurs := Deferred.mem_leaves.mp consumed
    cases reads with
    | properties place shape =>
      cases occurs with
      | object member occurs => exact .property place shape member occurs
    | output place shape => exact .output place shape occurs
    | image place shape belongs isNested atTop =>
      cases occurs
      exact .image place shape belongs isNested atTop

/-- What consumes something stands in a stack. -/
theorem WellFormed.exists_stackOf?_of_consumes (wellFormed : tree.WellFormed)
    (consumes : tree.Consumes node leaf) : ∃ stack, tree.stackOf? node = some stack := by
  obtain ⟨found, place, needsStack, noStack⟩ : ∃ found, tree.get? node = some found ∧
      found.construct.needsStack = true ∧ found.construct.isStack = false := by
    cases consumes with
    | property place shape => exact ⟨_, place, by rw [shape]; rfl, by rw [shape]; rfl⟩
    | output place shape => exact ⟨_, place, by rw [shape]; rfl, by rw [shape]; rfl⟩
    | image place shape => exact ⟨_, place, by rw [shape]; rfl, by rw [shape]; rfl⟩
  obtain ⟨stack, around⟩ := wellFormed.enclosed place needsStack
  refine ⟨stack, ?_⟩
  rw [stackOf?_of_not_isStack (by rw [isStack, place]; exact noStack), around]

/-! ### The references that there are -/

/-- A leaf that a construct consumes and that is not the identity of its stack. -/
structure AsksFor (tree : Tree) (node stack : NodeId) (leaf : Leaf) : Prop where
  consumes : tree.Consumes node leaf
  belongs : tree.stackOf? node = some stack
  notOwn : ∀ attr, leaf ≠ .stack stack attr

/-- A reference that there is: a construct asks for its leaf, which is at home elsewhere. -/
structure Refers (tree : Tree) (reference : Reference) : Prop where
  asks : tree.AsksFor reference.consumer reference.consumerStack reference.leaf
  origin : tree.producer reference.leaf = .ok reference.producer
  away : reference.producer.home ≠ reference.consumerStack

/-- One reference comes before another: its construct comes before in the tree, or its leaf stands
at an earlier place of the same construct, where a place in a resource begins with the number of the
property. -/
def Earlier (tree : Tree) (first second : Reference) : Prop :=
  tree.preorder.idxOf first.consumer < tree.preorder.idxOf second.consumer ∨
    first.consumer = second.consumer ∧ ∃ value place placeToo,
      tree.Reads first.consumer value ∧ value.FirstAt first.leaf place ∧
        value.FirstAt second.leaf placeToo ∧ place < placeToo

/-- The references that there are, each once and in order. -/
structure Discovers (tree : Tree) (references : List Reference) : Prop where
  exactly : ∀ reference, reference ∈ references ↔ tree.Refers reference
  once : (references.map (fun reference => (reference.consumer, reference.leaf))).Nodup
  inOrder : references.Pairwise tree.Earlier

theorem ownIdentity?_eq_none :
    leaf.ownIdentity? stack = none ↔ ∀ attr, leaf ≠ .stack stack attr := by
  cases leaf with
  | construct => exact iff_of_true rfl fun _ => Leaf.noConfusion
  | asset => exact iff_of_true rfl fun _ => Leaf.noConfusion
  | stack owner attr =>
    rw [Leaf.ownIdentity?]
    split
    · rename_i same
      exact iff_of_false (Option.some_ne_none _) fun apart => apart attr (same ▸ rfl)
    · rename_i apart
      refine iff_of_true rfl fun other same => apart ?_
      exact (Leaf.stack.inj same).1

/-! ### One construct -/

/-- A leaf that a stack sees only from outside. -/
def seenFromOutside (tree : Tree) (stack : NodeId) (leaf : Leaf) : Bool :=
  (leaf.ownIdentity? stack).isNone &&
    match tree.producer leaf with
    | .ok producer => producer.home ≠ stack
    | .error _ => false

theorem seenFromOutside_of_none (found : tree.referenceBetween leaf consumer stack = .ok none) :
    tree.seenFromOutside stack leaf = false := by
  rcases indigenous_of_referenceBetween found with own | ⟨producer, origin, atHome⟩
  · simp [seenFromOutside, Option.isNone_iff_eq_none, Option.isSome_iff_ne_none.mp own]
  · simp [seenFromOutside, origin, atHome]

theorem seenFromOutside_of_some
    (found : tree.referenceBetween leaf consumer stack = .ok (some reference)) :
    tree.seenFromOutside stack leaf = true := by
  obtain ⟨proper, rfl, rfl⟩ := proper_of_referenceBetween found
  have notOwn := proper.notOwn
  simp_all [seenFromOutside, proper.origin, proper.away]

theorem Finds.consumer_eq {seen leaves : List Leaf}
    (finds : tree.Finds consumer stack seen leaves references) :
    ∀ reference ∈ references, reference.consumer = consumer := by
  intro reference member
  obtain ⟨_, _, atLeaf⟩ := finds.between reference member
  exact consumer_of_referenceBetween atLeaf

/-- The leaves of the references of a construct are those that its stack sees only from outside,
each where it is first met. -/
theorem Finds.map_leaf {seen leaves : List Leaf}
    (finds : tree.Finds consumer stack seen leaves references) :
    references.map Reference.leaf = (leaves.filter
      (fun leaf => !seen.contains leaf && tree.seenFromOutside stack leaf)).eraseDups := by
  induction finds with
  | done => rfl
  | met isSeen _ inductionHypothesis =>
    rw [List.filter_cons_of_neg (by simp [isSeen]), inductionHypothesis]
  | unneeded _ atLeaf _ inductionHypothesis =>
    rw [List.filter_cons_of_neg (by simp [seenFromOutside_of_none atLeaf]), inductionHypothesis]
  | @needed _ _ leaf _ _ new atLeaf _ inductionHypothesis =>
    rw [List.filter_cons_of_pos (by simp [new, seenFromOutside_of_some atLeaf]),
      List.eraseDups_cons, List.filter_filter, List.map_cons, inductionHypothesis,
      (proper_of_referenceBetween atLeaf).2.1]
    -- what was met and what is the leaf are left out alike
    refine congrArg (fun kept => leaf :: List.eraseDups kept) (List.filter_congr fun other _ => ?_)
    rw [List.contains_cons, Bool.not_or, Bool.and_assoc]

theorem consumer_of_referencesOf (found : tree.referencesOf node = .ok references) :
    ∀ reference ∈ references, reference.consumer = node := by
  rw [referencesOf] at found
  split at found
  · cases found
    exact List.forall_mem_nil _
  · split at found
    · exact (finds_of_referencesAmong found).consumer_eq
    · cases found

theorem inOrder_referencesOf (found : tree.referencesOf node = .ok references) :
    references.Pairwise tree.Earlier := by
  have sameNode := consumer_of_referencesOf found
  have isConsumed : ∀ reference ∈ references, reference.leaf ∈ tree.consumedBy node :=
    fun reference isFound => ((referencesOf_eq_ok found).2 reference isFound).2.2
  rw [referencesOf] at found
  split at found
  · cases found
    exact .nil
  · split at found
    · rename_i stack _
      have firsts := pairwise_idxOf_eraseDups (tree.consumedBy node)
        (fun leaf => !List.contains [] leaf && tree.seenFromOutside stack leaf)
      rw [← (finds_of_referencesAmong found).map_leaf, List.pairwise_map] at firsts
      refine firsts.imp_of_mem fun {first second} isFirst isSecond earlier => .inr ?_
      rw [sameNode first isFirst, sameNode second isSecond]
      have consumed := isConsumed first isFirst
      have consumedToo := isConsumed second isSecond
      obtain ⟨value, reads⟩ := exists_reads consumed
      rw [reads.consumedBy_eq] at earlier consumed consumedToo
      obtain ⟨place, placeToo, atFirst, atSecond, before⟩ :=
        value.exists_firstAt_lt consumed consumedToo earlier
      exact ⟨rfl, value, place, placeToo, reads, atFirst, atSecond, before⟩
    · cases found

/-! ### All constructs -/

namespace WellFormed

variable (wellFormed : tree.WellFormed)
include wellFormed

/-- What is found are the references that there are. -/
theorem mem_references_iff (found : tree.references = .ok references) :
    reference ∈ references ↔ tree.Refers reference := by
  obtain ⟨perNode, related, same⟩ := bind_eq_ok.mp found
  cases same
  obtain ⟨all, only⟩ := mem_of_mapM_eq_ok related
  constructor
  · intro member
    obtain ⟨ofNode, isListed, isFound⟩ := List.mem_flatten.mp member
    obtain ⟨node, _, foundNode⟩ := only ofNode isListed
    obtain ⟨proper, belongs, consumed⟩ := (referencesOf_eq_ok foundNode).2 reference isFound
    rw [← consumer_of_referencesOf foundNode reference isFound] at belongs consumed
    refine ⟨⟨consumes_iff.mpr consumed, belongs, ?_⟩, proper.origin, proper.away⟩
    exact ownIdentity?_eq_none.mp (by simpa using proper.notOwn)
  · rintro ⟨⟨consumes, belongs, notOwn⟩, origin, away⟩
    have consumed := consumes_iff.mp consumes
    obtain ⟨ofNode, isListed, foundNode⟩ :=
      all _ (wellFormed.mem_preorder.mpr (lt_of_consumedBy consumed))
    rcases (referencesOf_eq_ok foundNode).1 _ belongs _ consumed with
      (own | ⟨producer, originToo, atHome⟩) | ⟨other, isFound, sameLeaf, sameStack⟩
    · rw [ownIdentity?_eq_none.mpr notOwn] at own
      cases own
    · rw [origin] at originToo
      cases originToo
      exact absurd atHome away
    · have originToo := ((referencesOf_eq_ok foundNode).2 other isFound).1.origin
      have sameNode := consumer_of_referencesOf foundNode other isFound
      rw [sameLeaf, origin] at originToo
      have same : other = reference := by
        obtain ⟨_, _, _, _⟩ := other
        obtain ⟨_, _, _, _⟩ := reference
        cases originToo
        cases sameLeaf
        cases sameStack
        cases sameNode
        rfl
      exact List.mem_flatten.mpr ⟨ofNode, isListed, same ▸ isFound⟩

/-- References are found in the order of the tree. -/
theorem inOrder_references (found : tree.references = .ok references) :
    references.Pairwise tree.Earlier := by
  obtain ⟨perNode, related, same⟩ := bind_eq_ok.mp found
  cases same
  obtain ⟨_, only⟩ := mem_of_mapM_eq_ok related
  have nodes : tree.preorder.Pairwise
      (fun first second => tree.preorder.idxOf first < tree.preorder.idxOf second) := by
    have once : tree.preorder.Nodup := nodup_preorder wellFormed.ordered
    refine List.pairwise_iff_getElem.mpr fun first second inFirst inSecond earlier => ?_
    rw [once.idxOf_getElem, once.idxOf_getElem]
    exact earlier
  refine List.pairwise_flatten.mpr ⟨fun ofNode isListed => ?_, ?_⟩
  · obtain ⟨node, _, foundNode⟩ := only ofNode isListed
    exact inOrder_referencesOf foundNode
  · refine pairwise_of_mapM_eq_ok related (nodes.imp fun {node other} earlier => ?_)
    intro ofNode ofOther foundNode foundOther reference isFirst further isSecond
    refine .inl ?_
    rwa [consumer_of_referencesOf foundNode reference isFirst,
      consumer_of_referencesOf foundOther further isSecond]

theorem discovers_of_references (found : tree.references = .ok references) :
    tree.Discovers references where
  exactly _ := wellFormed.mem_references_iff found
  inOrder := wellFormed.inOrder_references found
  once := by
    refine List.pairwise_map.mpr ((wellFormed.inOrder_references found).imp ?_)
    intro first second earlier same
    obtain ⟨sameNode, sameLeaf⟩ := Prod.mk.inj same
    rcases earlier with earlier | ⟨_, value, place, placeToo, _, atFirst, atSecond, before⟩
    · exact Nat.lt_irrefl _ (sameNode ▸ earlier)
    · exact atSecond.first place (sameLeaf ▸ atFirst.stands) before

end WellFormed

/-! ### Failures -/

/-- A construct asks for a leaf that has no origin. -/
def AsksInVain (tree : Tree) (cause : ResolveError) : Prop :=
  ∃ node stack leaf, tree.AsksFor node stack leaf ∧ tree.producer leaf = .error cause

theorem referenceBetween_eq_error
    (failed : tree.referenceBetween leaf consumer stack = .error cause) :
    leaf.ownIdentity? stack = none ∧ tree.producer leaf = .error cause := by
  rw [referenceBetween] at failed
  split at failed
  · cases failed
  · rename_i notOwn
    rcases bind_eq_error.mp failed with noOrigin | ⟨_, _, failed⟩
    · exact ⟨by simpa using notOwn, noOrigin⟩
    · split at failed <;> cases failed

theorem referencesAmong_eq_error {leaves : List Leaf} : ∀ {seen : List Leaf},
    tree.referencesAmong consumer stack seen leaves = .error cause →
      ∃ leaf ∈ leaves, leaf.ownIdentity? stack = none ∧ tree.producer leaf = .error cause := by
  induction leaves with
  | nil =>
    intro seen failed
    cases failed
  | cons head rest inductionHypothesis =>
    intro seen failed
    have later : ∀ {seen}, tree.referencesAmong consumer stack seen rest = .error cause →
        ∃ leaf ∈ head :: rest, leaf.ownIdentity? stack = none ∧
          tree.producer leaf = .error cause := by
      intro seen failed
      obtain ⟨leaf, member, fails⟩ := inductionHypothesis failed
      exact ⟨leaf, List.mem_cons_of_mem _ member, fails⟩
    rw [referencesAmong] at failed
    split at failed
    · exact later failed
    · rcases bind_eq_error.mp failed with atHead | ⟨between, _, failed⟩
      · exact ⟨head, List.mem_cons_self, referenceBetween_eq_error atHead⟩
      · cases between with
        | none => exact later failed
        | some reference =>
          rcases bind_eq_error.mp failed with failed | ⟨_, _, never⟩
          · exact later failed
          · cases never

/-- A search that fails has met a leaf without an origin. -/
theorem WellFormed.asksInVain_of_references (wellFormed : tree.WellFormed)
    (failed : tree.references = .error cause) : tree.AsksInVain cause := by
  rcases bind_eq_error.mp failed with failed | ⟨_, _, never⟩
  · obtain ⟨node, _, failed⟩ := mapM_eq_error failed
    rw [referencesOf] at failed
    split at failed
    · cases failed
    · rename_i consumesSome
      split at failed
      · rename_i stack belongs
        obtain ⟨leaf, consumed, notOwn, noOrigin⟩ := referencesAmong_eq_error failed
        exact ⟨node, stack, leaf,
          ⟨consumes_iff.mpr consumed, belongs, ownIdentity?_eq_none.mp notOwn⟩, noOrigin⟩
      · rename_i homeless
        obtain ⟨leaf, consumed⟩ := List.exists_mem_of_ne_nil _ consumesSome
        obtain ⟨stack, belongs⟩ :=
          wellFormed.exists_stackOf?_of_consumes (consumes_iff.mpr consumed)
        rw [homeless] at belongs
        cases belongs
  · cases never

/-- A search that meets a leaf without an origin fails. -/
theorem WellFormed.references_ne_ok (wellFormed : tree.WellFormed)
    (inVain : tree.AsksInVain cause) : tree.references ≠ .ok references := by
  intro found
  obtain ⟨node, stack, leaf, ⟨consumes, belongs, notOwn⟩, noOrigin⟩ := inVain
  rcases (wellFormed.references_eq_ok found).1 node stack belongs leaf
    (consumes_iff.mp consumes) with (own | ⟨producer, origin, _⟩) | ⟨reference, isFound, rfl, _⟩
  · rw [ownIdentity?_eq_none.mpr notOwn] at own
    cases own
  · rw [noOrigin] at origin
    cases origin
  · have origin := ((wellFormed.references_eq_ok found).2 reference isFound).1.origin
    rw [noOrigin] at origin
    cases origin

end Tree

namespace Application

/-- If references are found, then exactly those that there are, each once and in the order of the
tree; and none are found exactly if a construct asks for a leaf that has no origin. -/
theorem discovery_is_exact (bundler : Asset.Bundler) (steps : List BuildStep) :
    (∀ references, (build bundler steps).tree.references = .ok references →
      (build bundler steps).tree.Discovers references) ∧
    (∀ cause, (build bundler steps).tree.references = .error cause →
      (build bundler steps).tree.AsksInVain cause) ∧
    ((∃ cause, (build bundler steps).tree.AsksInVain cause) →
      ∃ cause, (build bundler steps).tree.references = .error cause) := by
  have wellFormed := wellFormed_build bundler steps
  refine ⟨fun _ found => wellFormed.discovers_of_references found,
    fun _ failed => wellFormed.asksInVain_of_references failed, ?_⟩
  rintro ⟨cause, inVain⟩
  cases result : (build bundler steps).tree.references with
  | ok references => exact absurd result (wellFormed.references_ne_ok inVain)
  | error cause => exact ⟨cause, rfl⟩

/-- A resource that reads an attribute of its own stack, which has none. -/
def gropes : List BuildStep :=
  [.topLevelStack 0 "S" ⟨none, .unspecified⟩,
    .resource 1 "A" ⟨"Bucket", [("Source", .getAtt 1 "Arn")], none⟩]

/-- A resource that reads two values of another stack, one of them twice. -/
def browser : List BuildStep :=
  [.topLevelStack 0 "S" ⟨none, .unspecified⟩, .resource 1 "A" ⟨"Bucket", [], none⟩,
    .topLevelStack 0 "T" ⟨none, .unspecified⟩,
    .resource 3 "B" ⟨"Bucket", [("Source", .join "/" [.getAtt 2 "Arn", .reference 2]),
      ("Backup", .getAtt 2 "Arn")], none⟩]

/-- What is read twice is found once, before what stands behind its first place; and what gropes
for a value has none to find. -/
theorem browser_is_discovered :
    (∃ first second, (build Asset.byPath browser).tree.references = .ok [first, second] ∧
      first.leaf = .construct 2 "Arn" ∧ second.leaf = .construct 2 "Ref" ∧
      first.consumer = 4 ∧ second.consumer = 4 ∧
      (build Asset.byPath browser).tree.Discovers [first, second]) ∧
    ∃ cause, (build Asset.byPath gropes).tree.references = .error cause ∧
      (build Asset.byPath gropes).tree.AsksInVain cause := by
  constructor
  · have seen : ((build Asset.byPath browser).tree.references.toOption.map fun references =>
        references.map fun reference => (reference.leaf, reference.consumer)) =
        some [(.construct 2 "Arn", 4), (.construct 2 "Ref", 4)] := by
      decide +kernel
    obtain ⟨references, isFound, listed⟩ := Option.map_eq_some_iff.mp seen
    have found := eq_ok_of_toOption isFound
    obtain ⟨first, further, rfl, isFirst, listed⟩ := List.map_eq_cons_iff.mp listed
    obtain ⟨second, last, rfl, isSecond, listed⟩ := List.map_eq_cons_iff.mp listed
    obtain rfl := List.map_eq_nil_iff.mp listed
    obtain ⟨firstLeaf, firstConsumer⟩ := Prod.mk.inj isFirst
    obtain ⟨secondLeaf, secondConsumer⟩ := Prod.mk.inj isSecond
    exact ⟨first, second, found, firstLeaf, secondLeaf, firstConsumer, secondConsumer,
      (discovery_is_exact Asset.byPath browser).1 _ found⟩
  · have noOrigin : ∃ cause,
        (build Asset.byPath gropes).tree.producer (.construct 1 "Arn") = .error cause := by
      have fails : ((build Asset.byPath gropes).tree.producer (.construct 1 "Arn")).toOption.isNone
          = true := by
        decide +kernel
      cases origin : (build Asset.byPath gropes).tree.producer (.construct 1 "Arn") with
      | ok producer =>
        rw [origin] at fails
        cases fails
      | error cause => exact ⟨cause, rfl⟩
    have consumed : .construct 1 "Arn" ∈ (build Asset.byPath gropes).tree.consumedBy 2 := by
      decide +kernel
    have belongs : (build Asset.byPath gropes).tree.stackOf? 2 = some 1 := by
      decide +kernel
    obtain ⟨_, noOrigin⟩ := noOrigin
    obtain ⟨cause, failed⟩ := (discovery_is_exact Asset.byPath gropes).2.2 ⟨_, 2, 1, _,
      ⟨Tree.consumes_iff.mpr consumed, belongs, fun _ => Leaf.noConfusion⟩, noOrigin⟩
    exact ⟨cause, failed, (discovery_is_exact Asset.byPath gropes).2.1 _ failed⟩

end Application

end StackSynth
