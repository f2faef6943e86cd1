/-
This file proves when a stack writes two of the leaves that it consumes alike. In a synthesized
application whose suffixes tell their texts apart, this happens exactly if the leaves merge on their
way to the stack; and the same decides at every stack that both pass whether they are one there. The
attributes of a resource can merge, as names keep only the letters and digits of an attribute.
-/

import StackSynth.Proofs.Synthesis.Merging

namespace StackSynth

open Outcome

variable {tree : Tree} {prepared : Prepared} {stack : NodeId} {leaf : Leaf}

/-! ### How a consumed leaf comes to its stack -/

/-- The hops by which a leaf comes to a stack, and how the stack writes it. -/
structure Prepared.Brings (tree : Tree) (prepared : Prepared) (stack : NodeId) (leaf : Leaf)
    (hops : List Hop) (value : Template.Value) : Prop where
  comes : tree.hopsTo stack leaf = .ok hops
  view : tree.view prepared.wiring.table stack leaf = .ok value
  stands : tree.Stands leaf hops stack value
  made : ∀ hop ∈ hops, tree.Made prepared.wired hop

namespace Prepared.Sound

variable {done : List NodeId} (sound : prepared.Sound tree done) (wellFormed : tree.WellFormed)
include sound wellFormed

/-- A leaf that a stack can write was brought there. -/
theorem brings_of_view {value : Template.Value}
    (view : tree.view prepared.wiring.table stack leaf = .ok value) :
    ∃ hops, prepared.Brings tree stack leaf hops value := by
  cases own : leaf.ownIdentity? stack with
  | some pseudo =>
    obtain ⟨attr, rfl, rfl⟩ := Leaf.eq_of_ownIdentity? own
    have written := view
    rw [Tree.view, own] at written
    cases written
    refine ⟨[], ?_, view, .home (.own attr), fun _ never => absurd never List.not_mem_nil⟩
    rw [Tree.hopsTo, own]
    rfl
  | none =>
    have written := view
    rw [Tree.view, own] at written
    obtain ⟨producer, origin, written⟩ := bind_eq_ok.mp written
    have hopsOf : ∀ {delivery : Delivery}, tree.delivery producer stack = .ok delivery →
        tree.hopsTo stack leaf = .ok delivery.hops := by
      intro delivery delivered
      rw [Tree.hopsTo, own, if_neg (by simp)]
      exact bind_eq_ok.mpr ⟨producer, origin, bind_eq_ok.mpr ⟨delivery, delivered, rfl⟩⟩
    split at written
    · rename_i atHome
      cases written
      have delivered : tree.delivery producer stack = .ok ⟨.sameStack, [], producer.passage⟩ := by
        rw [Tree.delivery, Tree.route, if_pos atHome]
        rfl
      exact ⟨[], hopsOf delivered, view, .home (atHome ▸ Tree.atHome_of_producer origin),
        fun _ never => absurd never List.not_mem_nil⟩
    · split at written
      · rename_i found noted
        cases written
        obtain ⟨entry, member, sameLeaf, sameStack, delivery, delivered, atEnd⟩ :=
          sound.accounts.noted noted
        have sameOrigin := (sound.proper entry member).1.origin
        rw [sameLeaf, origin] at sameOrigin
        have made : ∀ hop ∈ delivery.hops, tree.Made prepared.wired hop :=
          fun hop isHop => ⟨entry, member, delivery, delivered, isHop⟩
        rw [← Except.ok.inj sameOrigin, sameStack] at delivered
        exact ⟨delivery.hops, hopsOf delivered, view,
          atEnd ▸ wellFormed.stands_of_delivery origin delivered, made⟩
      · cases written

/-- A stack can write all that is consumed in it. -/
theorem view_of_consumed (rendered : prepared.AllRendered tree)
    (isStack : tree.isStack stack = true)
    (consumed : leaf ∈ prepared.consumedIn tree stack) :
    ∃ value, tree.view prepared.wiring.table stack leaf = .ok value := by
  obtain ⟨_, _, _, renders⟩ := rendered stack isStack
  rcases List.mem_append.mp consumed with byMember | asked
  · obtain ⟨member, isMember, consumes⟩ := List.mem_flatMap.mp byMember
    rcases Rendering.asked_or_image_of_consumedBy prepared.rendering consumes with
      asks | ⟨noStack, top, hash, rfl⟩
    · exact renders.view_of_asked (List.mem_flatMap.mpr ⟨member, isMember, asks⟩)
    · have belongs : tree.stackOf? member = some stack := by
        rw [Tree.stackOf?_of_not_isStack noStack]
        exact (wellFormed.mem_membersOf isStack).mp isMember
      exact Tree.exists_view_of_settled (sound.consumed belongs _ consumes) rfl
  · exact renders.view_of_asked asked

end Prepared.Sound

theorem Prepared.mem_suffixed_of_consumed (wellFormed : tree.WellFormed)
    (isStack : tree.isStack stack = true) (consumed : leaf ∈ prepared.consumedIn tree stack) :
    ∀ text, leaf.suffixed? = some text → text ∈ prepared.suffixed tree := by
  intro text suffixed
  have listed := List.mem_flatMap.mpr ⟨stack, wellFormed.mem_allStacks.mpr isStack, consumed⟩
  exact List.mem_append_left _ (List.mem_filterMap.mpr ⟨leaf, listed, suffixed⟩)

/-! ### Leaves that are written alike -/

/-- The name that a value refers by, if it is a reference by name. -/
def Template.Value.reference? : Template.Value → Option String
  | .ref name => some name
  | _ => none

theorem Template.Value.eq_ref_of_reference? {value : Template.Value} {name : String}
    (refers : value.reference? = some name) : value = .ref name := by
  cases value with
  | ref other => rw [Option.some.inj refers]
  | _ => cases refers

namespace Application

/-- In a synthesized application whose suffixes tell their texts apart, a stack writes two of the
leaves that it consumes alike exactly if they merge on their way to it, and at every stack on the
way they are one exactly if they have merged so far. -/
theorem consumed_alike_iff (bundler : Asset.Bundler) (steps : List BuildStep)
    {prepared : Prepared} {assembly : Assembly}
    (ready : (build bundler steps).prepare bundler = .ok prepared)
    (assembled : prepared.assembly (build bundler steps).tree = .ok assembly)
    (separate : prepared.Separate (build bundler steps).tree) {stack : NodeId}
    (isStack : (build bundler steps).tree.isStack stack = true) {first second : Leaf}
    (consumedFirst : first ∈ prepared.consumedIn (build bundler steps).tree stack)
    (consumedSecond : second ∈ prepared.consumedIn (build bundler steps).tree stack)
    (different : first ≠ second) :
    ∃ hops value others last,
      prepared.Brings (build bundler steps).tree stack first hops value ∧
      prepared.Brings (build bundler steps).tree stack second others last ∧
      (value = last ↔ (build bundler steps).tree.Merge first second stack hops others) ∧
      ∀ place before between written other, before <+: hops → between <+: others →
        (build bundler steps).tree.isStack place = true →
        (build bundler steps).tree.Stands first before place written →
        (build bundler steps).tree.Stands second between place other →
        (written = other ↔ (build bundler steps).tree.Merge first second place before between) := by
  have wellFormed := wellFormed_build bundler steps
  have sound := Prepared.sound_of_prepare wellFormed ready
  have rendered := sound.allRendered wellFormed assembled
  obtain ⟨value, viewFirst⟩ := sound.view_of_consumed wellFormed rendered isStack consumedFirst
  obtain ⟨last, viewSecond⟩ := sound.view_of_consumed wellFormed rendered isStack consumedSecond
  obtain ⟨hops, bringsFirst⟩ := sound.brings_of_view wellFormed viewFirst
  obtain ⟨others, bringsSecond⟩ := sound.brings_of_view wellFormed viewSecond
  have decided : ∀ place before between written other, before <+: hops → between <+: others →
      (build bundler steps).tree.isStack place = true →
      (build bundler steps).tree.Stands first before place written →
      (build bundler steps).tree.Stands second between place other →
      (written = other ↔ (build bundler steps).tree.Merge first second place before between) := by
    intro place before between written other isPrefix isOther isStackPlace standsFirst standsSecond
    constructor
    · rintro rfl
      exact standsFirst.merge wellFormed rendered sound.accounts.records separate
        (Prepared.mem_suffixed_of_consumed wellFormed isStack consumedFirst)
        (Prepared.mem_suffixed_of_consumed wellFormed isStack consumedSecond) assembled different
        standsSecond isStackPlace (fun hop member => bringsFirst.made hop (isPrefix.subset member))
        (fun hop member => bringsSecond.made hop (isOther.subset member))
    · intro merge
      exact merge.eq wellFormed standsFirst standsSecond
  exact ⟨hops, value, others, last, bringsFirst, bringsSecond,
    decided stack hops others value last (List.prefix_refl _) (List.prefix_refl _) isStack
      bringsFirst.stands bringsSecond.stands, decided⟩

/-- A nested stack that reads two attributes of a resource around it. Their names differ in a dot
only. -/
def punctuated : List BuildStep :=
  [.topLevelStack 0 "S" ⟨none, .unspecified⟩, .resource 1 "A" ⟨"Bucket", [], none⟩,
    .nestedStack 1 "N",
    .resource 3 "U" ⟨"Bucket", [("First", .getAtt 2 "X.Y"), ("Second", .getAtt 2 "XY")], none⟩]

/-- The nested stack consumes both attributes and writes both as the same parameter, though no two
texts share a suffix. -/
theorem punctuated_synthesizes :
    ∃ prepared assembly, (build Asset.byPath punctuated).prepare Asset.byPath = .ok prepared ∧
      prepared.assembly (build Asset.byPath punctuated).tree = .ok assembly ∧
      prepared.Separate (build Asset.byPath punctuated).tree ∧
      ∀ attr ∈ ["X.Y", "XY"],
        .construct 2 attr ∈ prepared.consumedIn (build Asset.byPath punctuated).tree 3 ∧
        (build Asset.byPath punctuated).tree.view prepared.wiring.table 3 (.construct 2 attr) =
          .ok (.ref "referencetoSA44FA76EDXY") := by
  have facts : ((build Asset.byPath punctuated).prepare Asset.byPath).toOption.map (fun prepared =>
      ((prepared.assembly (build Asset.byPath punctuated).tree).isOk,
        decide (prepared.Separate (build Asset.byPath punctuated).tree),
        ["X.Y", "XY"].map (fun attr =>
          ((prepared.consumedIn (build Asset.byPath punctuated).tree 3).contains
            (.construct 2 attr),
          ((build Asset.byPath punctuated).tree.view prepared.wiring.table 3
            (.construct 2 attr)).toOption.bind Template.Value.reference?)))) =
      some (true, true,
        [(true, some "referencetoSA44FA76EDXY"), (true, some "referencetoSA44FA76EDXY")]) := by
    decide +kernel
  obtain ⟨prepared, ready, facts⟩ := exists_of_map_toOption facts
  obtain ⟨isOk, facts⟩ := Prod.mk.inj facts
  obtain ⟨separate, perAttribute⟩ := Prod.mk.inj facts
  have each : ∀ attr ∈ ["X.Y", "XY"],
      ((prepared.consumedIn (build Asset.byPath punctuated).tree 3).contains
          (.construct 2 attr),
        ((build Asset.byPath punctuated).tree.view prepared.wiring.table 3
          (.construct 2 attr)).toOption.bind Template.Value.reference?) =
        (true, some "referencetoSA44FA76EDXY") := by
    obtain ⟨atFirst, rest⟩ := List.cons.inj perAttribute
    obtain ⟨atSecond, _⟩ := List.cons.inj rest
    exact List.forall_mem_cons.mpr ⟨atFirst, List.forall_mem_singleton.mpr atSecond⟩
  obtain ⟨assembly, assembled⟩ := exists_of_isOk isOk
  refine ⟨prepared, assembly, ready, assembled, of_decide_eq_true separate, ?_⟩
  intro attr member
  obtain ⟨consumed, refers⟩ := Prod.mk.inj (each attr member)
  refine ⟨List.contains_iff_mem.mp consumed, ?_⟩
  cases view : (build Asset.byPath punctuated).tree.view prepared.wiring.table 3
      (.construct 2 attr) with
  | error _ =>
    rw [view] at refers
    cases refers
  | ok value =>
    rw [view] at refers
    rw [Template.Value.eq_ref_of_reference? refers]

/-- The nested stack writes them alike because they merge. -/
theorem punctuated_attributes_merge :
    ∃ prepared assembly hops others,
      (build Asset.byPath punctuated).prepare Asset.byPath = .ok prepared ∧
      prepared.assembly (build Asset.byPath punctuated).tree = .ok assembly ∧
      (build Asset.byPath punctuated).tree.hopsTo 3 (.construct 2 "X.Y") = .ok hops ∧
      (build Asset.byPath punctuated).tree.hopsTo 3 (.construct 2 "XY") = .ok others ∧
      (build Asset.byPath punctuated).tree.Merge (.construct 2 "X.Y") (.construct 2 "XY") 3 hops
        others := by
  obtain ⟨prepared, assembly, ready, assembled, separate, each⟩ := punctuated_synthesizes
  obtain ⟨consumedFirst, viewFirst⟩ := each "X.Y" List.mem_cons_self
  obtain ⟨consumedSecond, viewSecond⟩ := each "XY" (List.mem_cons_of_mem _ List.mem_cons_self)
  have isStack : (build Asset.byPath punctuated).tree.isStack 3 = true := by decide +kernel
  obtain ⟨hops, value, others, last, bringsFirst, bringsSecond, alike, _⟩ :=
    consumed_alike_iff Asset.byPath punctuated ready assembled separate isStack consumedFirst
      consumedSecond (by decide)
  have sameValue : value = last := by
    rw [← Except.ok.inj (viewFirst.symm.trans bringsFirst.view),
      ← Except.ok.inj (viewSecond.symm.trans bringsSecond.view)]
  exact ⟨prepared, assembly, hops, others, ready, assembled, bringsFirst.comes, bringsSecond.comes,
    alike.mp sameValue⟩

/-- So not all that differs is written differently, though the suffixes tell all texts apart. -/
theorem punctuated_attributes_alias :
    ∃ prepared assembly, (build Asset.byPath punctuated).prepare Asset.byPath = .ok prepared ∧
      prepared.assembly (build Asset.byPath punctuated).tree = .ok assembly ∧
      prepared.Separate (build Asset.byPath punctuated).tree ∧
      ¬∀ first ∈ prepared.consumedIn (build Asset.byPath punctuated).tree 3,
        ∀ second ∈ prepared.consumedIn (build Asset.byPath punctuated).tree 3, first ≠ second →
          (build Asset.byPath punctuated).tree.view prepared.wiring.table 3 first ≠
            (build Asset.byPath punctuated).tree.view prepared.wiring.table 3 second := by
  obtain ⟨prepared, assembly, ready, assembled, separate, each⟩ := punctuated_synthesizes
  obtain ⟨consumedFirst, viewFirst⟩ := each "X.Y" List.mem_cons_self
  obtain ⟨consumedSecond, viewSecond⟩ := each "XY" (List.mem_cons_of_mem _ List.mem_cons_self)
  refine ⟨prepared, assembly, ready, assembled, separate, fun noAlias => ?_⟩
  exact noAlias _ consumedFirst _ consumedSecond (by decide) (viewFirst.trans viewSecond.symm)

end Application

end StackSynth
