/-
This file tells what the names in a template stand for. A member claims a name among the resources
or among the parameters of its stack, wiring claims further parameters, and within each section a
name is claimed once, as rendering refuses the second claim. Between the sections names are not
compared, and neither is a slot of an asset for which no parameter is declared.
-/

import StackSynth.Proofs.Naming.Spelling
import StackSynth.Proofs.Synthesis.Rendering
import StackSynth.Proofs.Wiring.Standing

namespace StackSynth

open Outcome

variable {tree : Tree} {stack node other : NodeId} {name : String}

/-! ### Names in a template -/

theorem Tree.isName_logicalId (named : tree.logicalId node = .ok name) : Naming.IsName name := by
  rw [logicalId] at named
  split at named
  · cases named
    exact Naming.isName_uniqueId _
  · cases named

theorem Tree.isName_embeddingId (named : tree.embeddingId node = .ok name) :
    Naming.IsName name := by
  obtain ⟨_, _, named⟩ := bind_eq_ok.mp named
  split at named
  · cases named
    exact Naming.isName_uniqueId _
  · cases named

namespace Rendering

/-- A member of a stack declares something of a kind under a name. -/
def Claims (rendering : Rendering) (tree : Tree) (stack member : NodeId) (kind name : String) :
    Prop :=
  member ∈ tree.membersOf stack ∧ ∃ declaration,
    rendering.declarationOf tree stack member = .ok (some (name, declaration)) ∧
      declaration.kind = kind

namespace Renders

variable {rendering : Rendering} {assetParameters : SortedMap String ParameterDecl}
  {template : Template} (renders : rendering.Renders tree stack assetParameters template)
include renders

/-- A name of a kind is claimed by one member. -/
theorem claims_unique {kind : String} (claims : rendering.Claims tree stack node kind name)
    (claimsOther : rendering.Claims tree stack other kind name) : node = other := by
  obtain ⟨isMember, _, declared, isKind⟩ := claims
  obtain ⟨isMemberOther, _, declaredOther, isKindOther⟩ := claimsOther
  exact renders.member_unique isMember isMemberOther declared declaredOther
    (isKind.trans isKindOther.symm)

variable (wellFormed : tree.WellFormed)
include wellFormed

theorem declared_of_around (around : tree.parentStack? node = some stack) :
    node ∈ tree.membersOf stack ∧ ∃ found, rendering.declarationOf tree stack node = .ok found := by
  have isMember := (wellFormed.mem_membersOf (Tree.isStack_of_parentStack? around)).mpr around
  exact ⟨isMember, renders.members node isMember⟩

theorem claims_resource (resourceIn : tree.ResourceIn stack node name) :
    rendering.Claims tree stack node "resource" name := by
  obtain ⟨isMember, found, declared⟩ := renders.declared_of_around wellFormed resourceIn.around
  obtain ⟨place, resource, atPlace, shape⟩ := resourceIn.place
  obtain ⟨_, _, known, named, rfl⟩ := (declarationOf_resource atPlace shape).mp declared
  rw [resourceIn.named] at named
  cases named
  exact ⟨isMember, _, declared, rfl⟩

theorem claims_nested (nestedIn : tree.NestedIn stack node name) :
    rendering.Claims tree stack node "resource" name := by
  obtain ⟨isMember, found, declared⟩ := renders.declared_of_around wellFormed nestedIn.around
  obtain ⟨place, atPlace, shape⟩ := Tree.get?_of_isNested nestedIn.isNested
  obtain ⟨_, _, known, named, rfl⟩ := (declarationOf_nested atPlace shape).mp declared
  rw [nestedIn.named] at named
  cases named
  exact ⟨isMember, _, declared, rfl⟩

theorem claims_parameter (parameterIn : tree.ParameterIn stack node name) :
    rendering.Claims tree stack node "parameter" name := by
  obtain ⟨isMember, found, declared⟩ := renders.declared_of_around wellFormed parameterIn.around
  obtain ⟨place, declaration, atPlace, shape⟩ := parameterIn.place
  obtain ⟨_, named, rfl⟩ := (declarationOf_parameter atPlace shape).mp declared
  rw [parameterIn.named] at named
  cases named
  exact ⟨isMember, _, declared, rfl⟩

/-- No resource has the name of one that embeds a nested stack. -/
theorem not_nested_of_resource (resourceIn : tree.ResourceIn stack node name)
    (nestedIn : tree.NestedIn stack other name) : False := by
  have same := renders.claims_unique (renders.claims_resource wellFormed resourceIn)
    (renders.claims_nested wellFormed nestedIn)
  obtain ⟨place, resource, atPlace, shape⟩ := resourceIn.place
  have isNested := nestedIn.isNested
  rw [← same, Tree.isNested, atPlace] at isNested
  simp only [shape, Construct.isNestedStack, Bool.false_eq_true] at isNested

/-- No parameter that the application declares has the name of one that the stack receives. -/
theorem not_received_of_parameter {value : Template.Value}
    (parameterIn : tree.ParameterIn stack node name)
    (received : (rendering.wiring.stateOf stack).received.get? name = some value) : False := by
  obtain ⟨isMember, declaration, declared, isParameter⟩ :=
    renders.claims_parameter wellFormed parameterIn
  have isGenerated : (name, .parameter .string) ∈
      generated (rendering.wiring.stateOf stack) assetParameters := by
    refine List.mem_append_left _ (List.mem_append_left _ (List.mem_map.mpr
      ⟨(name, .string), SortedMap.mem_entries.mpr ?_, rfl⟩))
    rw [StackWiring.supplied, SortedMap.get?_mapValues, received]
    rfl
  exact renders.member_ne_generated isMember declared isGenerated isParameter rfl

end Renders

end Rendering

/-! ### What a name can mean -/

/-- The things that a reference by name can stand for in a template. -/
inductive Meaning where
  /-- A resource, or a nested stack through the resource that embeds it. -/
  | resource
  /-- A parameter that the application declares. -/
  | parameter
  /-- The parameter for a slot of an asset. -/
  | slot
  /-- A parameter by which a value arrives. -/
  | received
deriving DecidableEq

/-- Whether nothing keeps the names of two things apart: resources and parameters stand in different
sections of a template, and a slot has a name also where no parameter is declared for it. -/
def Meaning.mayCoincide : Meaning → Meaning → Bool
  | .resource, .resource => false
  | .resource, _ => true
  | _, .resource => true
  | .parameter, .slot => true
  | .slot, .parameter => true
  | _, _ => false

/-- What the name stands for by which a leaf is written in a stack behind hops. -/
inductive Tree.Means (tree : Tree) (stack : NodeId) :
    Leaf → List Hop → Meaning → String → Prop where
  | resource {node : NodeId} {name : String} : tree.ResourceIn stack node name →
    Means tree stack (.construct node "Ref") [] .resource name
  | nested {nested : NodeId} {name : String} : tree.NestedIn stack nested name →
    Means tree stack (.stack nested .id) [] .resource name
  | parameter {node : NodeId} {name : String} : tree.ParameterIn stack node name →
    Means tree stack (.construct node "Ref") [] .parameter name
  | slot (hash : ContentHash) (slot : Asset.Slot) : Means tree stack (.asset stack hash slot) []
    .slot (Naming.assetParameterName hash slot.name)
  | received (leaf : Leaf) (hops : List Hop) (passage : Passage) :
    Means tree stack leaf (hops ++ [⟨.into stack, passage⟩]) .received
      (Naming.parameterName passage.path passage.attr)

namespace Tree

variable {leaf : Leaf} {hops : List Hop} {meaning : Meaning} {value : Template.Value}

theorem Means.isName (means : tree.Means stack leaf hops meaning name) : Naming.IsName name := by
  cases means with
  | resource resourceIn => exact isName_logicalId resourceIn.named
  | nested nestedIn => exact isName_embeddingId nestedIn.named
  | parameter parameterIn => exact isName_logicalId parameterIn.named
  | slot hash slot => exact Naming.isName_uniqueId _
  | received hops passage => exact Naming.isName_parameterName _ _

/-- What is written by a name is the stack itself, or the name means something. -/
theorem AtHome.means (atHome : tree.AtHome stack leaf (.ref name)) :
    (∃ attr : StackAttribute, leaf = .stack stack attr ∧ name = attr.pseudo.name) ∨
      ∃ meaning, tree.Means stack leaf [] meaning name := by
  cases atHome with
  | own attr => exact .inl ⟨attr, rfl, rfl⟩
  | resource resourceIn => exact .inr ⟨_, .resource resourceIn⟩
  | parameter parameterIn => exact .inr ⟨_, .parameter parameterIn⟩
  | slot hash slot => exact .inr ⟨_, .slot hash slot⟩
  | nestedId nestedIn => exact .inr ⟨_, .nested nestedIn⟩

/-- A leaf that has a meaning is written by its name. -/
theorem WellFormed.value_of_means (wellFormed : tree.WellFormed)
    (means : tree.Means stack leaf hops meaning name) (stands : tree.Stands leaf hops stack value) :
    value = .ref name := by
  cases means with
  | resource resourceIn =>
    cases stands.atHome with
    | resource other =>
      rw [Except.ok.inj (resourceIn.named.symm.trans other.named)]
    | attributeOf _ notIdentity => exact absurd rfl notIdentity
    | parameter other =>
      rw [Except.ok.inj (resourceIn.named.symm.trans other.named)]
  | nested nestedIn =>
    cases stands.atHome with
    | own =>
      -- no stack stands in itself
      exact absurd (Tree.parentStack?_lt wellFormed.ordered nestedIn.around) (Nat.lt_irrefl _)
    | nestedId other =>
      rw [Except.ok.inj (nestedIn.named.symm.trans other.named)]
  | parameter parameterIn =>
    cases stands.atHome with
    | resource other =>
      rw [Except.ok.inj (parameterIn.named.symm.trans other.named)]
    | attributeOf _ notIdentity => exact absurd rfl notIdentity
    | parameter other =>
      rw [Except.ok.inj (parameterIn.named.symm.trans other.named)]
  | slot hash slot =>
    cases stands.atHome with
    | slot => rfl
  | received =>
    obtain ⟨_, _, _, arrives⟩ := stands.arrives wellFormed
    cases arrives with
    | received => rfl

end Tree

end StackSynth
