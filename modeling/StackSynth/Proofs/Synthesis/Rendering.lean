/-
This file proves what the template of a stack holds. A template that is rendered at all holds, under
its name, all that the members of the stack declare and all that wiring and assets add, and no two
of these share a name in one section, since the second would have been refused. What is rendered
depends on little: on how the stack writes the leaves that its members ask for, on what wiring has
given to the stack and to the nested stacks in it, and on the templates of these.
-/

import Mathlib.Data.List.Pairwise
import StackSynth.Proofs.Construct.Traversal
import StackSynth.Proofs.Deferred.Resolution
import StackSynth.Synthesis.Rendering

namespace StackSynth

open Outcome

/-! ### Sections -/

namespace Template

/-- What a template declares under a name, in the section of the declaration. -/
def Holds (template : Template) (name : String) : Declaration → Prop
  | .parameter declaration => template.parameters.get? name = some declaration
  | .resource declaration => Fields.get? name template.resources = some declaration
  | .output declaration => template.outputs.get? name = some declaration

variable {template : Template} {name other : String} {declaration found : Declaration}

theorem not_holds_empty : ¬empty.Holds name declaration := by
  cases declaration <;> exact fun never => nomatch never

/-- A name is taken if something of the same kind is declared under it. -/
theorem declares_of_holds (holds : template.Holds name found)
    (sameKind : found.kind = declaration.kind) : template.declares name declaration = true := by
  cases found <;> cases declaration <;> first
    | exact SortedMap.contains_iff.mpr ⟨_, holds⟩
    | exact Option.isSome_iff_exists.mpr ⟨_, holds⟩
    | exact absurd sameKind (by simp [Declaration.kind])

theorem holds_insert_self : (template.insert name declaration).Holds name declaration := by
  cases declaration with
  | parameter => exact SortedMap.get?_insert_self _ _ _
  | resource => exact (Fields.get?_set _ _ _ _).trans (if_pos rfl)
  | output => exact SortedMap.get?_insert_self _ _ _

/-- An addition leaves other names and other sections alone. -/
theorem holds_insert_of_apart (apart : found.kind = declaration.kind → other ≠ name) :
    (template.insert name declaration).Holds other found ↔ template.Holds other found := by
  cases found <;> cases declaration <;> first
    | exact Iff.rfl
    | exact Eq.congr_left (SortedMap.get?_insert_of_ne (apart rfl))
    | exact Eq.congr_left ((Fields.get?_set _ _ _ _).trans (if_neg (apart rfl)))

/-- In one section a name stands for one thing. -/
theorem holds_unique {second : Declaration} (holdsFirst : template.Holds name found)
    (holdsSecond : template.Holds name second) (sameKind : found.kind = second.kind) :
    found = second := by
  cases found <;> cases second <;> first
    | exact congrArg _ (Option.some.inj (Eq.trans (Eq.symm holdsFirst) holdsSecond))
    | exact absurd sameKind (by simp [Declaration.kind])

end Template

namespace Rendering

/-- Two declarations that do not compete for a name. -/
def Apart (first second : String × Declaration) : Prop :=
  first.2.kind = second.2.kind → first.1 ≠ second.1

theorem Apart.symm {first second : String × Declaration} (apart : Apart first second) :
    Apart second first := fun sameKind sameName => apart sameKind.symm sameName.symm

theorem declare_eq_ok {tree : Tree} {stack : NodeId} {template next : Template} {name : String}
    {declaration : Declaration}
    (declared : declare tree stack template name declaration = .ok next) :
    template.declares name declaration = false ∧ next = template.insert name declaration := by
  rw [declare] at declared
  split at declared
  · cases declared
  · rename_i isFree
    cases declared
    exact ⟨by simpa using isFree, rfl⟩

/-- Declarations added one after the other are all there, nothing else is, and no two of them
compete for a name. -/
theorem declareAll_eq_ok {tree : Tree} {stack : NodeId} {additions : List (String × Declaration)}
    {template : Template}
    (declared : additions.foldlM (fun template added => declare tree stack template added.1 added.2)
      Template.empty = .ok template) :
    (∀ added ∈ additions, template.Holds added.1 added.2) ∧ additions.Pairwise Apart ∧
      ∀ name declaration, template.Holds name declaration → (name, declaration) ∈ additions := by
  refine foldlM_invariant
    (fun before state => (∀ added ∈ before, state.Holds added.1 added.2) ∧ before.Pairwise Apart ∧
      ∀ name declaration, state.Holds name declaration → (name, declaration) ∈ before)
    ?_ ?_ declared
  · rintro before ⟨name, declaration⟩ after state next _ ⟨all, apart, only⟩ turned
    obtain ⟨isFree, rfl⟩ := declare_eq_ok turned
    have fresh : ∀ added ∈ before, Apart added (name, declaration) := by
      intro added member sameKind sameName
      have taken := Template.declares_of_holds (sameName ▸ all added member) sameKind
      exact absurd (taken.symm.trans isFree) (by decide)
    refine ⟨?_, ?_, ?_⟩
    · intro added member
      rcases List.mem_append.mp member with early | last
      · exact (Template.holds_insert_of_apart (fresh added early)).mpr (all added early)
      · cases List.mem_singleton.mp last
        exact Template.holds_insert_self
    · refine List.pairwise_append.mpr ⟨apart, List.pairwise_singleton _ _, ?_⟩
      intro added member last atLast
      cases List.mem_singleton.mp atLast
      exact fresh added member
    · intro other found holds
      by_cases competes : found.kind = declaration.kind ∧ other = name
      · obtain ⟨sameKind, rfl⟩ := competes
        cases Template.holds_unique holds Template.holds_insert_self sameKind
        exact List.mem_append_right _ List.mem_cons_self
      · have old := (Template.holds_insert_of_apart
          (fun sameKind sameName => competes ⟨sameKind, sameName⟩)).mp holds
        exact List.mem_append_left _ (only other found old)
  · exact ⟨fun _ never => (nomatch never), .nil,
      fun _ _ holds => absurd holds Template.not_holds_empty⟩

/-! ### The template of a stack -/

/-- What a member declares, if that can be told. -/
def declared? (rendering : Rendering) (tree : Tree) (stack member : NodeId) :
    Option (String × Declaration) :=
  match rendering.declarationOf tree stack member with
  | .ok found => found
  | .error _ => none

/-- Two members whose declarations do not compete for a name. -/
def MembersApart (rendering : Rendering) (tree : Tree) (stack first second : NodeId) : Prop :=
  ∀ one, rendering.declared? tree stack first = some one →
    ∀ other, rendering.declared? tree stack second = some other → Apart one other

instance (rendering : Rendering) (tree : Tree) (stack : NodeId) :
    Std.Symm (rendering.MembersApart tree stack) :=
  ⟨fun _ _ apart one declared other declaredOther =>
    (apart other declaredOther one declared).symm⟩

/-- All that goes into the template of a stack. -/
def additions (rendering : Rendering) (tree : Tree) (stack : NodeId)
    (assetParameters : SortedMap String ParameterDecl) : List (String × Declaration) :=
  (tree.membersOf stack).filterMap (rendering.declared? tree stack)
    ++ generated (rendering.wiring.stateOf stack) assetParameters

variable {rendering : Rendering} {tree : Tree} {stack member : NodeId} {template : Template}
  {assetParameters : SortedMap String ParameterDecl}

theorem declared?_of_ok {found : Option (String × Declaration)}
    (declared : rendering.declarationOf tree stack member = .ok found) :
    rendering.declared? tree stack member = found := by
  rw [declared?, declared]

/-- Adding what members declare is adding their declarations. -/
theorem foldlM_declareMember_eq_ok {members : List NodeId} :
    ∀ {start finish : Template},
      members.foldlM (rendering.declareMember tree stack) start = .ok finish →
      (∀ member ∈ members, ∃ found, rendering.declarationOf tree stack member = .ok found) ∧
        (members.filterMap (rendering.declared? tree stack)).foldlM
          (fun template added => declare tree stack template added.1 added.2) start =
          .ok finish := by
  induction members with
  | nil => exact fun done => ⟨fun _ never => (nomatch never), done⟩
  | cons member rest inductionHypothesis =>
    intro start finish done
    rw [List.foldlM_cons] at done
    obtain ⟨next, turned, done⟩ := bind_eq_ok.mp done
    obtain ⟨all, folded⟩ := inductionHypothesis done
    obtain ⟨found, declared, turned⟩ := bind_eq_ok.mp turned
    refine ⟨?_, ?_⟩
    · intro other inMembers
      rcases List.mem_cons.mp inMembers with rfl | later
      · exact ⟨found, declared⟩
      · exact all other later
    · cases found with
      | none =>
        cases turned
        rw [List.filterMap_cons_none (declared?_of_ok declared)]
        exact folded
      | some added =>
        rw [List.filterMap_cons_some (declared?_of_ok declared), List.foldlM_cons]
        exact bind_eq_ok.mpr ⟨next, turned, folded⟩

/-- What a rendered template comes from. -/
structure Renders (rendering : Rendering) (tree : Tree) (stack : NodeId)
    (assetParameters : SortedMap String ParameterDecl) (template : Template) : Prop where
  /-- Every member can tell what it declares. -/
  members : ∀ member ∈ tree.membersOf stack, ∃ found,
    rendering.declarationOf tree stack member = .ok found
  /-- All of it is there. -/
  holds : ∀ added ∈ rendering.additions tree stack assetParameters,
    template.Holds added.1 added.2
  /-- No two names compete. -/
  apart : (rendering.additions tree stack assetParameters).Pairwise Apart
  /-- Nothing else is there. -/
  only : ∀ name declaration, template.Holds name declaration →
    (name, declaration) ∈ rendering.additions tree stack assetParameters

theorem renders_of_template
    (rendered : rendering.template tree stack assetParameters = .ok template) :
    rendering.Renders tree stack assetParameters template := by
  obtain ⟨middle, ofMembers, further⟩ := bind_eq_ok.mp rendered
  obtain ⟨members, folded⟩ := foldlM_declareMember_eq_ok ofMembers
  obtain ⟨holds, apart, only⟩ := declareAll_eq_ok
    (foldlM_append_eq_ok.mpr ⟨middle, folded, further⟩)
  exact ⟨members, holds, apart, only⟩

namespace Renders

variable {name : String} {declaration : Declaration}
  (renders : rendering.Renders tree stack assetParameters template)
include renders

/-- What a member declares is in the template. -/
theorem holds_member (isMember : member ∈ tree.membersOf stack)
    (declared : rendering.declarationOf tree stack member = .ok (some (name, declaration))) :
    template.Holds name declaration :=
  renders.holds (name, declaration) (List.mem_append_left _
    (List.mem_filterMap.mpr ⟨member, isMember, declared?_of_ok declared⟩))

/-- What the stack receives is a parameter of its template. -/
theorem holds_received {value : Template.Value}
    (received : (rendering.wiring.stateOf stack).received.get? name = some value) :
    template.Holds name (.parameter .string) := by
  refine renders.holds (name, .parameter .string) (List.mem_append_right _
    (List.mem_append_left _ (List.mem_append_left _ (List.mem_map.mpr ⟨(name, .string), ?_, rfl⟩))))
  refine SortedMap.mem_entries.mpr ?_
  rw [StackWiring.supplied, SortedMap.get?_mapValues, received]
  rfl

/-- What the stack shows is an output of its template. -/
theorem holds_output {output : OutputDecl}
    (shown : (rendering.wiring.stateOf stack).outputs.get? name = some output) :
    template.Holds name (.output output) :=
  renders.holds (name, .output output) (List.mem_append_right _ (List.mem_append_left _
    (List.mem_append_right _ (List.mem_map.mpr
      ⟨(name, output), SortedMap.mem_entries.mpr shown, rfl⟩))))

/-- The parameters of the assets of the stack are parameters of its template. -/
theorem holds_assetParameter {parameter : ParameterDecl}
    (declared : assetParameters.get? name = some parameter) :
    template.Holds name (.parameter parameter) :=
  renders.holds (name, .parameter parameter) (List.mem_append_right _ (List.mem_append_right _
    (List.mem_map.mpr ⟨(name, parameter), SortedMap.mem_entries.mpr declared, rfl⟩)))

/-- Two members that declare things of one kind under one name are one member. -/
theorem member_unique {other : NodeId} {second : Declaration}
    (isMember : member ∈ tree.membersOf stack) (isMemberOther : other ∈ tree.membersOf stack)
    (declared : rendering.declarationOf tree stack member = .ok (some (name, declaration)))
    (declaredOther : rendering.declarationOf tree stack other = .ok (some (name, second)))
    (sameKind : declaration.kind = second.kind) : member = other := by
  have apart : (tree.membersOf stack).Pairwise (rendering.MembersApart tree stack) :=
    List.pairwise_filterMap.mp (List.pairwise_append.mp renders.apart).1
  by_contra different
  exact apart.forall isMember isMemberOther different _ (declared?_of_ok declared) _
    (declared?_of_ok declaredOther) sameKind rfl

/-- A member and the wiring do not declare things of one kind under one name. -/
theorem member_ne_generated {added : String × Declaration}
    (isMember : member ∈ tree.membersOf stack)
    (declared : rendering.declarationOf tree stack member = .ok (some (name, declaration)))
    (isGenerated : added ∈ generated (rendering.wiring.stateOf stack) assetParameters)
    (sameKind : declaration.kind = added.2.kind) : name ≠ added.1 :=
  (List.pairwise_append.mp renders.apart).2.2 (name, declaration)
    (List.mem_filterMap.mpr ⟨member, isMember, declared?_of_ok declared⟩) added isGenerated sameKind

end Renders

/-! ### What a member declares -/

variable {name : String} {found : Option (String × Declaration)}

/-- What a member declares comes from what it is. -/
theorem declarationOf_parameter {declaration : ParameterDecl} {node : Node}
    (place : tree.get? member = some node) (shape : node.construct = .parameter declaration) :
    rendering.declarationOf tree stack member = .ok found ↔
      ∃ name, tree.logicalId member = .ok name ∧ some (name, .parameter declaration) = found := by
  rw [declarationOf, place, Option.map_some, shape]
  simp only [bind_eq_ok, pure_eq_ok, mapError_eq_ok]

theorem declarationOf_resource {resource : Resource} {node : Node}
    (place : tree.get? member = some node) (shape : node.construct = .resource resource) :
    rendering.declarationOf tree stack member = .ok found ↔
      ∃ properties, Deferred.resolveMembers (tree.view rendering.wiring.table stack)
        resource.properties = .ok properties ∧ ∃ name, tree.logicalId member = .ok name ∧
          some (name, .resource ⟨resource.type, properties⟩) = found := by
  rw [declarationOf, place, Option.map_some, shape]
  simp only [bind_eq_ok, pure_eq_ok, mapError_eq_ok]

theorem declarationOf_output {spec : OutputSpec} {node : Node}
    (place : tree.get? member = some node) (shape : node.construct = .output spec) :
    rendering.declarationOf tree stack member = .ok found ↔
      ∃ value, rendering.write tree stack spec.value = .ok value ∧
        ∃ name, tree.logicalId member = .ok name ∧
          some (name, .output ⟨spec.description, value, spec.exported⟩) = found := by
  rw [declarationOf, place, Option.map_some, shape]
  simp only [bind_eq_ok, pure_eq_ok, mapError_eq_ok]

theorem declarationOf_nested {node : Node} (place : tree.get? member = some node)
    (shape : node.construct = .nestedStack) :
    rendering.declarationOf tree stack member = .ok found ↔
      ∃ resource, rendering.embeddingResource tree stack member = .ok resource ∧
        ∃ name, tree.embeddingId member = .ok name ∧ some (name, .resource resource) = found := by
  rw [declarationOf, place, Option.map_some, shape]
  simp only [bind_eq_ok, pure_eq_ok, mapError_eq_ok]

end Rendering

end StackSynth
