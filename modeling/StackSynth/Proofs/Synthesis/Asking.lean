/-
This file lists what the template of a stack asks for: the leaves that its members consume, and
the leaves in the addresses of the nested stacks among them. Rendering looks up these leaves and no
others, so two states of the preparation that agree on them, and on what wiring gave to the stack
and to its nested stacks, render the same template; and if every leaf asked for is settled and
every nested stack has an address, rendering never finds anything missing.
-/

import StackSynth.Proofs.Synthesis.Rendering

namespace StackSynth

open Outcome

/-! ### Settled leaves -/

/-- The errors that tell of a value no one has wired. -/
def ResolveError.IsUnwired : ResolveError → Prop
  | .unwired _ _ => True
  | _ => False

/-- The errors that tell of a preparation that was not complete. -/
def SynthesisError.IsIncomplete : SynthesisError → Prop
  | .resolve error => error.IsUnwired
  | .unlocated _ => True
  | .unenclosed _ => True
  | _ => False

namespace Tree

/-- A leaf that a stack can write: its own identity, a value at home in it, or one wired into it. -/
def Settled (tree : Tree) (table : SortedMap Consumption Template.Value) (stack : NodeId)
    (leaf : Leaf) : Prop :=
  (leaf.ownIdentity? stack).isSome = true ∨
    (∃ producer, tree.producer leaf = .ok producer ∧ producer.home = stack) ∨
      ∃ value, table.get? (leaf, stack) = some value

variable {tree : Tree} {table : SortedMap Consumption Template.Value} {stack : NodeId} {leaf : Leaf}
  {cause : ResolveError}

/-- A value without an origin is not an unwired one. -/
theorem producer_failsOnly (leaf : Leaf) : FailsOnly (¬·.IsUnwired) (tree.producer leaf) := by
  cases leaf with
  | construct node attr =>
    rw [producer, constructProducer]
    split
    · exact .of_error id
    · split
      · exact .of_error id
      · refine .bind (.of_change _ fun _ => id) fun name _ => ?_
        split
        · exact .of_ok _
        · split
          · exact .of_ok _
          · exact .of_error id
        · exact .of_error id
  | asset owner hash slot => exact .of_ok _
  | stack owner attr =>
    rw [producer, stackProducer]
    split
    · exact .of_error id
    · refine .check id ?_
      split
      · exact .of_ok _
      · split
        · exact .of_error id
        · exact .bind (.of_change _ fun _ => id) fun _ _ =>
            .bind (.of_change _ fun _ => id) fun _ _ => .of_ok _

/-- A settled leaf is written, unless it has no origin. -/
theorem view_of_settled (settled : tree.Settled table stack leaf) :
    FailsOnly (¬·.IsUnwired) (tree.view table stack leaf) := by
  rw [view]
  split
  · exact .of_ok _
  · rename_i notOwn
    refine .bind (producer_failsOnly leaf) fun producer origin => ?_
    split
    · exact .of_ok _
    · rename_i notHome
      rcases settled with own | ⟨other, sameOrigin, atHome⟩ | ⟨value, wired⟩
      · rw [notOwn] at own
        cases own
      · rw [origin] at sameOrigin
        cases sameOrigin
        exact absurd atHome notHome
      · rw [wired]
        exact .of_ok _

/-- A settled leaf that has an origin is written. -/
theorem exists_view_of_settled {producer : Producer} (settled : tree.Settled table stack leaf)
    (origin : tree.producer leaf = .ok producer) :
    ∃ value, tree.view table stack leaf = .ok value := by
  cases written : tree.view table stack leaf with
  | ok value => exact ⟨value, rfl⟩
  | error cause =>
    have notUnwired := view_of_settled settled cause written
    rw [view] at written
    split at written
    · cases written
    · rcases bind_eq_error.mp written with noOrigin | ⟨_, _, written⟩
      · rw [origin] at noOrigin
        cases noOrigin
      · split at written
        · cases written
        · split at written
          · cases written
          · cases written
            exact absurd trivial notUnwired

end Tree

namespace Rendering

/-! ### What is asked for -/

/-- The leaves that a member of a stack asks the stack to write. -/
def askedBy (rendering : Rendering) (tree : Tree) (member : NodeId) : List Leaf :=
  match (tree.get? member).map Node.construct with
  | some (.resource resource) => Deferred.leavesOfMembers resource.properties
  | some (.output spec) => spec.value.leaves
  | some .nestedStack =>
    match rendering.embedded.get? member with
    | some embedded => embedded.location.leaves
    | none => []
  | _ => []

/-- The leaves that the template of a stack asks for. -/
def asked (rendering : Rendering) (tree : Tree) (stack : NodeId) : List Leaf :=
  (tree.membersOf stack).flatMap (rendering.askedBy tree)

variable {tree : Tree} {first second rendering : Rendering} {stack member : NodeId}
  {assetParameters : SortedMap String ParameterDecl}

/-- A member asks for what it consumes or, if it is a nested stack, for the leaves of its
address. -/
theorem consumed_or_located_of_askedBy {leaf : Leaf}
    (asked : leaf ∈ rendering.askedBy tree member) :
    (tree.isStack member = false ∧ leaf ∈ tree.consumedBy member) ∨
      (tree.isNested member = true ∧ ∃ embedded,
        rendering.embedded.get? member = some embedded ∧ leaf ∈ embedded.location.leaves) := by
  rw [askedBy] at asked
  cases place : tree.get? member with
  | none =>
    rw [place] at asked
    cases asked
  | some node =>
    obtain ⟨id, parent, construct⟩ := node
    rw [place, Option.map_some] at asked
    rw [Tree.isStack, Tree.isNested, Tree.consumedBy, place, Option.map_some]
    cases construct with
    | resource | output => exact .inl ⟨rfl, asked⟩
    | nestedStack =>
      cases located : rendering.embedded.get? member with
      | none =>
        simp only [located] at asked
        cases asked
      | some embedded =>
        simp only [located] at asked
        exact .inr ⟨rfl, embedded, rfl, asked⟩
    | _ => cases asked

/-- All that a member consumes it asks for, but for the name of an image, which nothing writes. -/
theorem asked_or_image_of_consumedBy (rendering : Rendering) {leaf : Leaf}
    (consumes : leaf ∈ tree.consumedBy member) :
    leaf ∈ rendering.askedBy tree member ∨
      (tree.isStack member = false ∧ ∃ top hash, leaf = .asset top hash .imageName) := by
  rw [Tree.consumedBy] at consumes
  cases place : tree.get? member with
  | none =>
    rw [place] at consumes
    cases consumes
  | some node =>
    obtain ⟨id, parent, construct⟩ := node
    rw [place, Option.map_some] at consumes
    rw [askedBy, Tree.isStack, place, Option.map_some]
    cases construct with
    | resource | output => exact .inl consumes
    | asset hash packaging =>
      cases packaging with
      | file => cases consumes
      | containerImage =>
        dsimp only at consumes
        split at consumes
        · rename_i stack top _ _
          split at consumes
          · exact .inr ⟨rfl, top, hash, List.mem_singleton.mp consumes⟩
          · cases consumes
        · cases consumes
    | _ => cases consumes

/-- A rendered stack can write everything that its template asks for. -/
theorem Renders.view_of_asked {template : Template} {leaf : Leaf}
    (renders : rendering.Renders tree stack assetParameters template)
    (asked : leaf ∈ rendering.asked tree stack) :
    ∃ value, tree.view rendering.wiring.table stack leaf = .ok value := by
  obtain ⟨member, isMember, asked⟩ := List.mem_flatMap.mp asked
  obtain ⟨found, declared⟩ := renders.members member isMember
  rw [askedBy] at asked
  cases place : tree.get? member with
  | none =>
    rw [place] at asked
    cases asked
  | some node =>
    rw [place, Option.map_some] at asked
    cases shape : node.construct with
    | resource resource =>
      rw [shape] at asked
      obtain ⟨properties, resolved, _⟩ := (declarationOf_resource place shape).mp declared
      exact Deferred.leaf_of_resolveMembers_ok resolved leaf asked
    | output spec =>
      rw [shape] at asked
      obtain ⟨value, written, _⟩ := (declarationOf_output place shape).mp declared
      exact Deferred.leaf_of_resolve_ok (mapError_eq_ok.mp written) leaf asked
    | nestedStack =>
      rw [shape] at asked
      obtain ⟨resource, embedding, _⟩ := (declarationOf_nested place shape).mp declared
      rw [embeddingResource] at embedding
      split at embedding
      · cases embedding
      · rename_i embedded located
        simp only [located] at asked
        obtain ⟨location, written, _⟩ := bind_eq_ok.mp embedding
        exact Deferred.leaf_of_resolve_ok (mapError_eq_ok.mp written) leaf asked
    | _ =>
      rw [shape] at asked
      cases asked

/-- Two states of the preparation that do not differ for a stack. -/
structure Agree (tree : Tree) (stack : NodeId) (first second : Rendering) : Prop where
  views : ∀ leaf ∈ first.asked tree stack,
    tree.view first.wiring.table stack leaf = tree.view second.wiring.table stack leaf
  own : first.wiring.stateOf stack = second.wiring.stateOf stack
  supplied : ∀ member ∈ tree.membersOf stack, tree.isNested member = true →
    (first.wiring.stateOf member).received = (second.wiring.stateOf member).received
  embedded : ∀ member ∈ tree.membersOf stack, tree.isNested member = true →
    first.embedded.get? member = second.embedded.get? member

/-- Two states of the preparation between which nothing was done to a stack: it has got nothing
more, nothing more is written in it, and its nested stacks are supplied and embedded as before. -/
structure Untouched (tree : Tree) (stack : NodeId) (first second : Rendering) : Prop where
  own : first.wiring.stateOf stack = second.wiring.stateOf stack
  table : ∀ leaf, first.wiring.table.get? (leaf, stack) = second.wiring.table.get? (leaf, stack)
  supplied : ∀ nested, tree.isNested nested = true → tree.parentStack? nested = some stack →
    (first.wiring.stateOf nested).received = (second.wiring.stateOf nested).received
  embedded : ∀ nested, tree.isNested nested = true → tree.parentStack? nested = some stack →
    first.embedded.get? nested = second.embedded.get? nested

theorem Untouched.refl (tree : Tree) (stack : NodeId) (rendering : Rendering) :
    Untouched tree stack rendering rendering :=
  ⟨rfl, fun _ => rfl, fun _ _ _ => rfl, fun _ _ _ => rfl⟩

theorem Untouched.trans {third : Rendering} (before : Untouched tree stack first second)
    (after : Untouched tree stack second third) : Untouched tree stack first third where
  own := before.own.trans after.own
  table leaf := (before.table leaf).trans (after.table leaf)
  supplied nested isNested around :=
    (before.supplied nested isNested around).trans (after.supplied nested isNested around)
  embedded nested isNested around :=
    (before.embedded nested isNested around).trans (after.embedded nested isNested around)

theorem Untouched.agree (untouched : Untouched tree stack first second)
    (wellFormed : tree.WellFormed) (isStack : tree.isStack stack = true) :
    Agree tree stack first second where
  views leaf _ := by
    rw [Tree.view, Tree.view, untouched.table]
  own := untouched.own
  supplied nested isMember isNested :=
    untouched.supplied nested isNested ((wellFormed.mem_membersOf isStack).mp isMember)
  embedded nested isMember isNested :=
    untouched.embedded nested isNested ((wellFormed.mem_membersOf isStack).mp isMember)

theorem Agree.declarationOf (agree : Agree tree stack first second)
    (isMember : member ∈ tree.membersOf stack) :
    first.declarationOf tree stack member = second.declarationOf tree stack member := by
  have views : ∀ leaf ∈ first.askedBy tree member,
      tree.view first.wiring.table stack leaf = tree.view second.wiring.table stack leaf :=
    fun leaf asked => agree.views leaf (List.mem_flatMap.mpr ⟨member, isMember, asked⟩)
  rw [Rendering.declarationOf, Rendering.declarationOf]
  rw [askedBy] at views
  cases place : tree.get? member with
  | none => rfl
  | some node =>
    rw [place, Option.map_some] at views
    rw [Option.map_some]
    cases shape : node.construct with
    | resource resource =>
      rw [shape] at views
      simp only [Deferred.resolveMembers_congr _ views]
    | output spec =>
      rw [shape] at views
      simp only [write, Deferred.resolve_congr _ views]
    | nestedStack =>
      have isNested : tree.isNested member = true := by
        rw [Tree.isNested, place]
        simp only [shape, Construct.isNestedStack]
      have sameTemplate := agree.embedded member isMember isNested
      rw [shape] at views
      simp only [embeddingResource, ← sameTemplate, ← agree.supplied member isMember isNested]
      cases located : first.embedded.get? member with
      | none => rfl
      | some embedded =>
        simp only [located] at views
        simp only [write, Deferred.resolve_congr _ views]
    | _ => rfl

/-- States that agree on a stack render it alike. -/
theorem Agree.template (agree : Agree tree stack first second) :
    first.template tree stack assetParameters = second.template tree stack assetParameters := by
  have sameMembers : ∀ {members : List NodeId},
      (∀ member ∈ members, member ∈ tree.membersOf stack) →
      ∀ start, members.foldlM (first.declareMember tree stack) start =
        members.foldlM (second.declareMember tree stack) start := by
    intro members
    induction members with
    | nil => exact fun _ _ => rfl
    | cons member rest inductionHypothesis =>
      intro all start
      have atMember := agree.declarationOf (all member List.mem_cons_self)
      have later := inductionHypothesis fun other inRest =>
        all other (List.mem_cons_of_mem _ inRest)
      rw [List.foldlM_cons, List.foldlM_cons, declareMember, declareMember, atMember]
      exact congrArg _ (funext later)
  rw [Rendering.template, Rendering.template, sameMembers (fun _ isMember => isMember),
    agree.own]

/-! ### Nothing is missing -/

theorem declare_failsOnly (template : Template) (name : String) (declaration : Declaration) :
    FailsOnly (¬·.IsIncomplete) (declare tree stack template name declaration) := by
  rw [declare]
  split
  · exact .of_error id
  · exact .of_ok _

/-- Everything that the template of a stack asks for is there. -/
structure Complete (rendering : Rendering) (tree : Tree) (stack : NodeId) : Prop where
  settled : ∀ leaf ∈ rendering.asked tree stack, tree.Settled rendering.wiring.table stack leaf
  located : ∀ member ∈ tree.membersOf stack, tree.isNested member = true →
    ∃ embedded, rendering.embedded.get? member = some embedded

namespace Complete

variable (complete : rendering.Complete tree stack)
include complete

theorem write_failsOnly {value : Deferred}
    (asked : ∀ leaf ∈ value.leaves, leaf ∈ rendering.asked tree stack) :
    FailsOnly (¬·.IsIncomplete) (rendering.write tree stack value) := by
  refine .mapError fun cause unresolved => ?_
  obtain ⟨leaf, consumed, unseen⟩ := Deferred.leaf_of_resolve_error unresolved
  exact Tree.view_of_settled (complete.settled leaf (asked leaf consumed)) cause unseen

theorem declarationOf_failsOnly (isMember : member ∈ tree.membersOf stack) :
    FailsOnly (¬·.IsIncomplete) (rendering.declarationOf tree stack member) := by
  have asked : ∀ leaf ∈ rendering.askedBy tree member, leaf ∈ rendering.asked tree stack :=
    fun leaf consumed => List.mem_flatMap.mpr ⟨member, isMember, consumed⟩
  rw [askedBy] at asked
  rw [Rendering.declarationOf]
  cases place : tree.get? member with
  | none => exact .of_ok _
  | some node =>
    rw [place, Option.map_some] at asked
    rw [Option.map_some]
    cases shape : node.construct with
    | parameter declaration => exact .bind (.of_change _ fun _ => id) fun _ _ => .of_ok _
    | resource resource =>
      rw [shape] at asked
      refine .bind (.mapError fun cause unresolved => ?_) fun _ _ =>
        .bind (.of_change _ fun _ => id) fun _ _ => .of_ok _
      obtain ⟨leaf, consumed, unseen⟩ := Deferred.leaf_of_resolveMembers_error unresolved
      exact Tree.view_of_settled (complete.settled leaf (asked leaf consumed)) cause unseen
    | output spec =>
      rw [shape] at asked
      exact .bind (complete.write_failsOnly asked) fun _ _ =>
        .bind (.of_change _ fun _ => id) fun _ _ => .of_ok _
    | nestedStack =>
      rw [shape] at asked
      have isNested : tree.isNested member = true := by
        rw [Tree.isNested, place]
        simp only [shape, Construct.isNestedStack]
      obtain ⟨embedded, located⟩ := complete.located member isMember isNested
      simp only [located] at asked
      refine .bind ?_ fun _ _ => .bind (.of_change _ fun _ => id) fun _ _ => .of_ok _
      rw [embeddingResource, located]
      exact .bind (complete.write_failsOnly asked) fun _ _ => .of_ok _
    | _ => exact .of_ok _

/-- Rendering a stack for which all is there never finds anything missing. -/
theorem template_failsOnly :
    FailsOnly (¬·.IsIncomplete) (rendering.template tree stack assetParameters) := by
  refine .bind (.foldlM ?_) fun _ _ => .foldlM fun _ _ _ _ _ _ => declare_failsOnly _ _ _
  intro before member after _ split _
  have isMember : member ∈ tree.membersOf stack := by
    rw [split]
    exact List.mem_append_right _ List.mem_cons_self
  refine .bind (complete.declarationOf_failsOnly isMember) fun found _ => ?_
  cases found with
  | none => exact .of_ok _
  | some added => exact declare_failsOnly _ _ _

end Complete

end Rendering

end StackSynth
