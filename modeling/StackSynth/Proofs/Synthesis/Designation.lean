/-
This file decides when a reference by name is unambiguous. Everything that a template refers to by
name is a pseudo parameter or is declared in the template, apart from slots of assets for which the
stack has no parameter. But parameters and resources are only compared among themselves, so a name
can stand in both sections: a resource, or a nested stack through the resource that embeds it, can
have the name of a parameter that the application declares, that wiring adds or that assets need.
-/

import StackSynth.Proofs.Synthesis.Linking

namespace StackSynth

open Outcome

/-! ### Names of constructs -/

/-- Whether a construct is a parameter. -/
def Construct.isParameter : Construct → Bool
  | .parameter _ => true
  | _ => false

namespace Tree

/-- The path below a stack from which the name of a construct is made there: a nested stack has that
of the resource that embeds it. -/
def declaredPath (tree : Tree) (stack node : NodeId) : List String :=
  match tree.get? node with
  | some ⟨id, some scope, .nestedStack⟩ =>
    (if scope = stack then [] else tree.componentsBelow stack scope) ++ embeddingComponents id
  | _ => tree.componentsBelow stack node

/-- Whether a construct of the tree is a parameter. -/
def isParameter (tree : Tree) (node : NodeId) : Bool :=
  (tree.get? node).any (fun found => found.construct.isParameter)

variable {tree : Tree} {stack node : NodeId}

theorem declaredName_eq (around : tree.parentStack? node = some stack) :
    tree.declaredName node = .ok (Naming.uniqueId (tree.declaredPath stack node)) := by
  cases above : tree.parent? node with
  | none =>
    rw [parentStack?_of_orphan above] at around
    cases around
  | some scope =>
    obtain ⟨⟨id, parent, construct⟩, place, rfl⟩ := parent?_eq_some above
    rw [declaredName, declaredPath, isNested, place]
    cases construct with
    | nestedStack =>
      show tree.embeddingId node = _
      rw [embeddingId, find, place, around]
      rfl
    | _ =>
      show tree.logicalId node = _
      rw [logicalId, around]

theorem WellFormed.usable_declaredPath (wellFormed : tree.WellFormed) (stack node : NodeId) :
    Naming.Usable (tree.declaredPath stack node) := by
  have below : ∀ other, Naming.Usable (tree.componentsBelow stack other) := by
    intro other component member
    rw [componentsBelow, idsOf, List.mem_reverse, List.mem_filterMap] at member
    obtain ⟨above, isAbove, named⟩ := member
    obtain ⟨found, place, rfl⟩ := Option.map_eq_some_iff.mp named
    exact wellFormed.usableId place (ne_root_of_mem_ancestors ((List.takeWhile_subset _) isAbove))
  rw [declaredPath]
  split
  · rename_i id scope place
    intro component member
    rcases List.mem_append.mp member with inScope | embedding
    · split at inScope
      · cases inScope
      · exact below scope component inScope
    · have notRoot : node ≠ rootId := by
        rintro rfl
        rw [wellFormed.root] at place
        cases place
      have noSlash := (wellFormed.usableId place notRoot).2
      rcases List.mem_cons.mp embedding with rfl | last
      · simp [noSlash]
      · rw [List.mem_singleton.mp last]
        simp [noSlash]
  · exact below node

/-- Two constructs of a stack have one name exactly if their paths are confused, provided the
suffixes of the paths tell them apart. -/
theorem WellFormed.declaredName_eq_iff (wellFormed : tree.WellFormed) {other : NodeId}
    (around : tree.parentStack? node = some stack)
    (aroundOther : tree.parentStack? other = some stack)
    (separate : Naming.Separate (tree.declaredPath stack node) (tree.declaredPath stack other)) :
    tree.declaredName node = tree.declaredName other ↔
      Naming.Confused (tree.declaredPath stack node) (tree.declaredPath stack other) := by
  rw [declaredName_eq around, declaredName_eq aroundOther, Except.ok.injEq]
  exact Naming.uniqueId_eq_iff (wellFormed.usable_declaredPath stack node)
    (wellFormed.usable_declaredPath stack other) separate

end Tree

/-! ### What a name is declared as -/

/-- What a reference by name can mean in a template. -/
def Template.declarations (template : Template) (name : String) : List Declaration :=
  ((template.parameters.get? name).map Declaration.parameter).toList
    ++ ((Fields.get? name template.resources).map Declaration.resource).toList

namespace Prepared

/-- A resource of a stack, or one that embeds a nested stack in it, has the name of a parameter of
the stack: of one that the application declares, by a path that is confused with its own, of one
by which a value arrives, or of one for an asset. -/
def Homonyms (tree : Tree) (prepared : Prepared) (stack : NodeId) (name : String) : Prop :=
  ∃ node, tree.parentStack? node = some stack ∧ tree.isDeployed node = true ∧
    tree.declaredName node = .ok name ∧
    ((∃ other, tree.parentStack? other = some stack ∧ tree.isParameter other = true ∧
        Naming.Confused (tree.declaredPath stack node) (tree.declaredPath stack other)) ∨
      (∃ value, (prepared.wiring.stateOf stack).received.get? name = some value) ∨
      ∃ parameter, (prepared.assetParameters tree stack).get? name = some parameter)

/-- The name of a slot of an asset for which a stack has no parameter. -/
def Unpublished (tree : Tree) (prepared : Prepared) (stack : NodeId) (name : String) : Prop :=
  ∃ (hash : ContentHash) (slot : Asset.Slot), name = Naming.assetParameterName hash slot.name ∧
    (prepared.assetParameters tree stack).get? name = none

variable {tree : Tree} {prepared : Prepared} {stack node : NodeId} {name : String}
  {template : Template}

/-- The kind of a construct decides in which section it is declared. -/
theorem Declares.isDeployed_iff {declaration : Declaration}
    (declares : prepared.Declares tree stack (.construct node) name declaration) :
    tree.isDeployed node = true ↔ ∃ resource, declaration = .resource resource := by
  cases declares with
  | @construct _ found _ _ place _ _ writes =>
    rw [Tree.isDeployed, place, Option.any_some]
    generalize found.construct = construct at writes
    cases writes <;> simp [Construct.isDeployed]

theorem Declares.isParameter_iff {declaration : Declaration}
    (declares : prepared.Declares tree stack (.construct node) name declaration) :
    tree.isParameter node = true ↔ ∃ parameter, declaration = .parameter parameter := by
  cases declares with
  | @construct _ found _ _ place _ _ writes =>
    rw [Tree.isParameter, place, Option.any_some]
    generalize found.construct = construct at writes
    cases writes <;> simp [Construct.isParameter]

theorem isDeclared_of_kind {found : Node} (place : tree.get? node = some found)
    (kind : tree.isDeployed node = true ∨ tree.isParameter node = true) :
    found.construct.isDeclared = true := by
  rw [Tree.isDeployed, Tree.isParameter, place, Option.any_some, Option.any_some] at kind
  cases shape : found.construct <;> rw [shape] at kind <;>
    first | rfl | simp [Construct.isDeployed, Construct.isParameter] at kind

section Sections

variable (wellFormed : tree.WellFormed)
  (renders : prepared.rendering.Renders tree stack (prepared.assetParameters tree stack) template)
include wellFormed renders

/-- A deployed construct has its resource in the template of the stack around it. -/
theorem exists_resource (around : tree.parentStack? node = some stack)
    (isDeployed : tree.isDeployed node = true) (named : tree.declaredName node = .ok name) :
    ∃ resource, Fields.get? name template.resources = some resource := by
  obtain ⟨found, place⟩ := get?_of_parentStack? around
  obtain ⟨other, declaration, declares⟩ :=
    exists_declares wellFormed renders place (isDeclared_of_kind place (.inl isDeployed)) around
  obtain ⟨resource, rfl⟩ := declares.isDeployed_iff.mp isDeployed
  have holds := holds_of_declares wellFormed renders declares
  cases declares with
  | construct _ _ namedOther _ =>
    cases Except.ok.inj (named.symm.trans namedOther)
    exact ⟨resource, holds⟩

/-- A parameter of the application has its declaration in the template of the stack around it. -/
theorem exists_parameter (around : tree.parentStack? node = some stack)
    (isParameter : tree.isParameter node = true) (named : tree.declaredName node = .ok name) :
    ∃ parameter, template.parameters.get? name = some parameter := by
  obtain ⟨found, place⟩ := get?_of_parentStack? around
  obtain ⟨other, declaration, declares⟩ :=
    exists_declares wellFormed renders place (isDeclared_of_kind place (.inr isParameter)) around
  obtain ⟨parameter, rfl⟩ := declares.isParameter_iff.mp isParameter
  have holds := holds_of_declares wellFormed renders declares
  cases declares with
  | construct _ _ namedOther _ =>
    cases Except.ok.inj (named.symm.trans namedOther)
    exact ⟨parameter, holds⟩

/-- A name is declared in both sections exactly if it belongs to homonyms. -/
theorem both_iff_homonyms (isStack : tree.isStack stack = true)
    (separate : ∀ first second, tree.parentStack? first = some stack →
      tree.parentStack? second = some stack →
      Naming.Separate (tree.declaredPath stack first) (tree.declaredPath stack second)) :
    ((∃ parameter, template.parameters.get? name = some parameter) ∧
        ∃ resource, Fields.get? name template.resources = some resource) ↔
      prepared.Homonyms tree stack name := by
  constructor
  · rintro ⟨⟨parameter, isParameter⟩, resource, isResource⟩
    have holds : template.Holds name (.resource resource) := isResource
    have holdsToo : template.Holds name (.parameter parameter) := isParameter
    obtain ⟨source, declares⟩ := exists_source wellFormed renders isStack holds
    obtain ⟨second, declaresToo⟩ := exists_source wellFormed renders isStack holdsToo
    have ofParameter : ∀ {node}, prepared.Declares tree stack (.construct node) name
        (.parameter parameter) → tree.isParameter node = true :=
      fun declares => declares.isParameter_iff.mpr ⟨parameter, rfl⟩
    cases declares with
    | @construct node _ _ _ place around named writes =>
      have isDeployed := (Declares.construct place around named writes).isDeployed_iff.mpr
        ⟨resource, rfl⟩
      refine ⟨node, around, isDeployed, named, ?_⟩
      cases declaresToo with
      | @construct other _ _ _ placeOther aroundOther namedOther writesOther =>
        refine .inl ⟨other, aroundOther,
          ofParameter (.construct placeOther aroundOther namedOther writesOther), ?_⟩
        exact (wellFormed.declaredName_eq_iff around aroundOther
          (separate node other around aroundOther)).mp (named.trans namedOther.symm)
      | received known => exact .inr (.inl ⟨_, known⟩)
      | assets notNested known =>
        refine .inr (.inr ⟨parameter, ?_⟩)
        rw [assetParameters, notNested]
        exact known
  · rintro ⟨node, around, isDeployed, named, reason⟩
    refine ⟨?_, exists_resource wellFormed renders around isDeployed named⟩
    rcases reason with ⟨other, aroundOther, isParameter, confused⟩ | ⟨value, received⟩ | ofAssets
    · refine exists_parameter wellFormed renders aroundOther isParameter ?_
      rw [← (wellFormed.declaredName_eq_iff around aroundOther
        (separate node other around aroundOther)).mpr confused]
      exact named
    · exact ⟨_, renders.holds_received received⟩
    · obtain ⟨parameter, known⟩ := ofAssets
      exact ⟨parameter, renders.holds_assetParameter known⟩

/-! ### What a reference designates -/

omit wellFormed in
theorem resource_of_claims {node : NodeId}
    (claims : prepared.rendering.Claims tree stack node "resource" name) :
    ∃ resource, Fields.get? name template.resources = some resource := by
  obtain ⟨isMember, declaration, declared, isKind⟩ := claims
  have holds := renders.holds_member isMember declared
  cases declaration with
  | resource resource => exact ⟨resource, holds⟩
  | parameter | output => simp [Declaration.kind] at isKind

omit wellFormed in
theorem parameter_of_claims {node : NodeId}
    (claims : prepared.rendering.Claims tree stack node "parameter" name) :
    ∃ parameter, template.parameters.get? name = some parameter := by
  obtain ⟨isMember, declaration, declared, isKind⟩ := claims
  have holds := renders.holds_member isMember declared
  cases declaration with
  | parameter parameter => exact ⟨parameter, holds⟩
  | resource | output => simp [Declaration.kind] at isKind

/-- What stands in a stack by a name is the stack itself, is declared in its template, or is a slot
without a parameter. -/
theorem Stood.declared (records : prepared.wiring.Records tree (tree.Made prepared.wired))
    {leaf : Leaf} {hops : List Hop} {value : Template.Value}
    (stood : prepared.Stood tree stack leaf hops value) (isLink : .ref name ∈ value.links) :
    (∃ pseudo : PseudoParameter, name = pseudo.name) ∨
      (∃ parameter, template.parameters.get? name = some parameter) ∨
      (∃ resource, Fields.get? name template.resources = some resource) ∨
      prepared.Unpublished tree stack name := by
  rcases stood.stands.home_or_arrives wellFormed with
    ⟨rfl, atHome⟩ | ⟨before, hop, _, rfl, _, _, arrives⟩
  · cases atHome with
    | own attr =>
      cases List.mem_singleton.mp isLink
      exact .inl ⟨_, rfl⟩
    | resource resourceIn =>
      cases List.mem_singleton.mp isLink
      have claims := renders.claims_resource wellFormed resourceIn
      exact .inr (.inr (.inl (resource_of_claims renders claims)))
    | parameter parameterIn =>
      cases List.mem_singleton.mp isLink
      have claims := renders.claims_parameter wellFormed parameterIn
      exact .inr (.inl (parameter_of_claims renders claims))
    | slot hash slot =>
      cases List.mem_singleton.mp isLink
      cases known : (prepared.assetParameters tree stack).get?
          (Naming.assetParameterName hash slot.name) with
      | some parameter => exact .inr (.inl ⟨parameter, renders.holds_assetParameter known⟩)
      | none => exact .inr (.inr (.inr ⟨hash, slot, rfl, known⟩))
    | nestedId nestedIn | nestedName nestedIn =>
      cases List.mem_singleton.mp isLink
      have claims := renders.claims_nested wellFormed nestedIn
      exact .inr (.inr (.inl (resource_of_claims renders claims)))
    | attributeOf => cases List.mem_singleton.mp isLink
  · cases arrives with
    | received _ passage =>
      cases List.mem_singleton.mp isLink
      have made := stood.made ⟨.into stack, passage⟩
        (List.mem_append_right _ List.mem_cons_self)
      obtain ⟨value, received⟩ := records.receives made rfl
      exact .inr (.inl ⟨_, renders.holds_received received⟩)
    | read | imported => cases List.mem_singleton.mp isLink

end Sections

end Prepared

namespace Application

/-- In a synthesized application a name is declared in both sections of a template exactly if it
belongs to homonyms, where the suffixes of names within a stack tell their paths apart. A reference
in a template designates one declaration, unless it names homonyms, a pseudo parameter, or a slot
of an asset that is not published. -/
theorem references_designate (bundler : Asset.Bundler) (steps : List BuildStep)
    {prepared : Prepared} {assembly : Assembly}
    (ready : (build bundler steps).prepare bundler = .ok prepared)
    (assembled : prepared.assembly (build bundler steps).tree = .ok assembly) {stack : NodeId}
    (isStack : (build bundler steps).tree.isStack stack = true)
    (separate : ∀ first second, (build bundler steps).tree.parentStack? first = some stack →
      (build bundler steps).tree.parentStack? second = some stack →
      Naming.Separate ((build bundler steps).tree.declaredPath stack first)
        ((build bundler steps).tree.declaredPath stack second)) :
    ∃ template, prepared.ownTemplate? (build bundler steps).tree stack = some template ∧
      (∀ name, ((∃ parameter, template.parameters.get? name = some parameter) ∧
          ∃ resource, Fields.get? name template.resources = some resource) ↔
        prepared.Homonyms (build bundler steps).tree stack name) ∧
      ∀ name, .ref name ∈ template.links →
        (∃ declaration, template.declarations name = [declaration]) ∨
        prepared.Homonyms (build bundler steps).tree stack name ∨
        (template.declarations name = [] ∧ ((∃ pseudo : PseudoParameter, name = pseudo.name) ∨
          prepared.Unpublished (build bundler steps).tree stack name)) := by
  have wellFormed := wellFormed_build bundler steps
  have sound := Prepared.sound_of_prepare wellFormed ready
  obtain ⟨template, own, rendered⟩ :=
    Prepared.ownTemplate_of_prepare wellFormed ready assembled isStack
  have renders := Rendering.renders_of_template rendered
  have presents := Prepared.presents_of_template wellFormed isStack rendered
  have both : ∀ name, ((∃ parameter, template.parameters.get? name = some parameter) ∧
        ∃ resource, Fields.get? name template.resources = some resource) ↔
      prepared.Homonyms (build bundler steps).tree stack name :=
    fun _ => Prepared.both_iff_homonyms wellFormed renders isStack separate
  refine ⟨template, own, both, fun name isLink => ?_⟩
  have designated : (∃ pseudo : PseudoParameter, name = pseudo.name) ∨
      (∃ parameter, template.parameters.get? name = some parameter) ∨
      (∃ resource, Fields.get? name template.resources = some resource) ∨
      prepared.Unpublished (build bundler steps).tree stack name := by
    rcases sound.linkIn_of_template wellFormed presents isLink with
      ⟨pseudo, same⟩ | ⟨leaf, hops, value, stood, inValue⟩
    · cases same
      exact .inl ⟨pseudo, rfl⟩
    · exact Prepared.Stood.declared wellFormed renders sound.accounts.records stood inValue
  rw [Template.declarations]
  cases isParameter : template.parameters.get? name with
  | some parameter =>
    cases isResource : Fields.get? name template.resources with
    | some resource => exact .inr (.inl ((both name).mp ⟨⟨_, isParameter⟩, _, isResource⟩))
    | none => exact .inl ⟨_, rfl⟩
  | none =>
    cases isResource : Fields.get? name template.resources with
    | some resource => exact .inl ⟨_, rfl⟩
    | none =>
      refine .inr (.inr ⟨rfl, ?_⟩)
      rw [isParameter, isResource] at designated
      simpa using designated

/-- A parameter and a resource whose ids differ in a hyphen only, and a resource that reads both. -/
def homonyms : List BuildStep :=
  [.topLevelStack 0 "S" ⟨none, .unspecified⟩, .parameter 1 "my-x" ⟨"String", none, none⟩,
    .resource 1 "myx" ⟨"Bucket", [], none⟩,
    .resource 1 "U" ⟨"Bucket", [("First", .reference 2), ("Second", .reference 3)], none⟩]

/-- The application has an assembly. The document of its stack declares one name in both sections
and refers to it. -/
theorem homonyms_synthesize :
    ∃ prepared assembly template, (build Asset.byPath homonyms).prepare Asset.byPath = .ok prepared ∧
      prepared.assembly (build Asset.byPath homonyms).tree = .ok assembly ∧
      prepared.ownTemplate? (build Asset.byPath homonyms).tree 1 = some template ∧
      assembly.documents.get? "S.template.json" = some template ∧
      (∃ parameter, template.parameters.get? "myx" = some parameter) ∧
      (∃ resource, Fields.get? "myx" template.resources = some resource) ∧
      .ref "myx" ∈ template.links := by
  have seen : ((build Asset.byPath homonyms).prepare Asset.byPath).toOption.bind (fun prepared =>
      (prepared.assembly (build Asset.byPath homonyms).tree).toOption.bind (fun assembly =>
        (assembly.documents.get? "S.template.json").map (fun template =>
          ((template.parameters.get? "myx").isSome,
            (Fields.get? "myx" template.resources).isSome,
            decide ("myx" ∈ template.links.filterMap Template.Value.reference?))))) =
      some (true, true, true) := by
    decide +kernel
  obtain ⟨prepared, ready, seen⟩ := Option.bind_eq_some_iff.mp seen
  obtain ⟨assembly, assembled, seen⟩ := Option.bind_eq_some_iff.mp seen
  obtain ⟨template, document, seen⟩ := Option.map_eq_some_iff.mp seen
  obtain ⟨isParameter, seen⟩ := Prod.mk.inj seen
  obtain ⟨isResource, isNamed⟩ := Prod.mk.inj seen
  obtain ⟨link, isLink, refers⟩ := List.mem_filterMap.mp (of_decide_eq_true isNamed)
  have isReady := eq_ok_of_toOption ready
  have isAssembled := eq_ok_of_toOption assembled
  have file : "S.template.json" = (build Asset.byPath homonyms).tree.documentFile 1 := by
    decide +kernel
  have isOwn := ownTemplate_of_document isReady isAssembled 1 (by decide +kernel)
    (by decide +kernel) (file ▸ document)
  exact ⟨prepared, assembly, template, isReady, isAssembled, isOwn, document,
    Option.isSome_iff_exists.mp isParameter, Option.isSome_iff_exists.mp isResource,
    Template.Value.eq_ref_of_reference? refers ▸ isLink⟩

/-- The resource and the parameter of the application are homonyms. -/
theorem homonyms_are_homonyms :
    ∃ prepared, (build Asset.byPath homonyms).prepare Asset.byPath = .ok prepared ∧
      prepared.Homonyms (build Asset.byPath homonyms).tree 1 "myx" := by
  obtain ⟨prepared, assembly, template, ready, assembled, own, _, isParameter, isResource, _⟩ :=
    homonyms_synthesize
  have isStack : (build Asset.byPath homonyms).tree.isStack 1 = true := by decide +kernel
  have plain : ∀ node, (build Asset.byPath homonyms).tree.parentStack? node = some 1 →
      Naming.hashedText? ((build Asset.byPath homonyms).tree.declaredPath 1 node) = none := by
    intro node around
    have listed : (build Asset.byPath homonyms).tree.membersOf 1 = [2, 3, 4] := by decide +kernel
    have member := ((wellFormed_build Asset.byPath homonyms).mem_membersOf isStack).mpr around
    rw [listed] at member
    have each : ∀ node ∈ [2, 3, 4],
        Naming.hashedText? ((build Asset.byPath homonyms).tree.declaredPath 1 node) = none := by
      decide +kernel
    exact each node member
  obtain ⟨same, isOwn, both, _⟩ := references_designate Asset.byPath homonyms ready assembled
    isStack (fun first second around _ text other hashed => by
      rw [plain first around] at hashed
      cases hashed)
  rw [own] at isOwn
  cases isOwn
  exact ⟨prepared, ready, (both "myx").mp ⟨isParameter, isResource⟩⟩

/-- So not every name is declared in one section only. -/
theorem homonyms_share_a_name :
    ∃ assembly template, (build Asset.byPath homonyms).synthesize Asset.byPath = .ok assembly ∧
      assembly.documents.get? "S.template.json" = some template ∧
      (∃ parameter, template.parameters.get? "myx" = some parameter) ∧
      (∃ resource, Fields.get? "myx" template.resources = some resource) ∧
      .ref "myx" ∈ template.links ∧
      ¬∃ declaration, template.declarations "myx" = [declaration] := by
  obtain ⟨prepared, assembly, template, ready, assembled, _, document, isParameter, isResource,
    isLink⟩ := homonyms_synthesize
  refine ⟨assembly, template, bind_eq_ok.mpr ⟨prepared, ready, assembled⟩, document, isParameter,
    isResource, isLink, ?_⟩
  rintro ⟨declaration, only⟩
  obtain ⟨parameter, isParameter⟩ := isParameter
  obtain ⟨resource, isResource⟩ := isResource
  rw [Template.declarations, isParameter, isResource] at only
  cases only

end Application

end StackSynth
