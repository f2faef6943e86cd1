/-
This file proves that synthesis declares every construct once. What a construct declares is told
here from what the construct is, without the rendering: its own type, texts and names, and its
values as its stack writes them. Every entry of a template is there for one thing, a construct of
the stack or an addition by wiring or for assets, and all of these have their entry. A name that is
taken is refused, so a resource never takes the place of another, and the resources stand in the
order of the tree.
-/

import Mathlib.Data.List.Forall2
import StackSynth.Proofs.Construct.Preorder
import StackSynth.Proofs.Fields
import StackSynth.Proofs.Synthesis.Keeping

namespace StackSynth

open Outcome

/-! ### What a construct declares -/

namespace Construct

/-- Whether a construct becomes a resource: a nested stack is embedded by one. -/
def isDeployed : Construct → Bool
  | .resource _ => true
  | .nestedStack => true
  | _ => false

/-- Whether a construct has an entry in the template of the stack around it. -/
def isDeclared : Construct → Bool
  | .parameter _ => true
  | .output _ => true
  | other => other.isDeployed

theorem needsStack_of_isDeclared {construct : Construct}
    (isDeclared : construct.isDeclared = true) : construct.needsStack = true := by
  cases construct <;> first | rfl | cases isDeclared

end Construct

namespace Tree

/-- Whether a construct of the tree becomes a resource. -/
def isDeployed (tree : Tree) (node : NodeId) : Bool :=
  (tree.get? node).any (fun found => found.construct.isDeployed)

/-- The name of a construct in the template of the stack around it: a nested stack has that of the
resource that embeds it. -/
def declaredName (tree : Tree) (node : NodeId) : Except ConstructError String :=
  if tree.isNested node then tree.embeddingId node else tree.logicalId node

end Tree

namespace Rendering

/-- A declaration has all that a construct has, with its values as the stack writes them. -/
inductive Writes (rendering : Rendering) (tree : Tree) (stack node : NodeId) :
    Construct → Declaration → Prop where
  | parameter (declaration : ParameterDecl) :
    Writes rendering tree stack node (.parameter declaration) (.parameter declaration)
  | resource {resource : Resource} {properties : List (String × Template.Value)} :
    List.Forall₂ (fun given written => written.1 = given.1 ∧
      rendering.write tree stack given.2 = .ok written.2) resource.properties properties →
    Writes rendering tree stack node (.resource resource)
      (.resource ⟨resource.type, properties⟩)
  | output {spec : OutputSpec} {value : Template.Value} :
    rendering.write tree stack spec.value = .ok value →
    Writes rendering tree stack node (.output spec)
      (.output ⟨spec.description, value, spec.exported⟩)
  | nestedStack {embedded : EmbeddedTemplate} {location : Template.Value} :
    rendering.embedded.get? node = some embedded →
    rendering.write tree stack embedded.location = .ok location →
    Writes rendering tree stack node .nestedStack (.resource ⟨nestedStackType,
      ("TemplateURL", location) :: suppliedProperty (rendering.wiring.stateOf node).received⟩)

variable {rendering : Rendering} {tree : Tree} {stack node : NodeId} {found : Node}

/-- Properties are resolved one by one and keep their order. -/
theorem resolveMembers_eq_ok {properties : List (String × Deferred)} :
    ∀ {written : List (String × Template.Value)},
      Deferred.resolveMembers (tree.view rendering.wiring.table stack) properties = .ok written ↔
        List.Forall₂ (fun given written => written.1 = given.1 ∧
          rendering.write tree stack given.2 = .ok written.2) properties written := by
  induction properties with
  | nil =>
    intro written
    rw [List.forall₂_nil_left_iff]
    constructor
    · intro same
      cases same
      rfl
    · rintro rfl
      rfl
  | cons first rest inductionHypothesis =>
    intro written
    obtain ⟨name, value⟩ := first
    simp only [Deferred.resolveMembers, bind_eq_ok, pure_eq_ok, List.forall₂_cons_left_iff]
    constructor
    · rintro ⟨head, atHead, others, behind, rfl⟩
      exact ⟨(name, head), others, ⟨rfl, mapError_eq_ok.mpr atHead⟩,
        inductionHypothesis.mp behind, rfl⟩
    · rintro ⟨⟨_, head⟩, others, ⟨rfl, atHead⟩, behind, rfl⟩
      exact ⟨head, mapError_eq_ok.mp atHead, others, inductionHypothesis.mpr behind, rfl⟩

theorem embeddingResource_eq_ok {resource : ResourceDecl} :
    rendering.embeddingResource tree stack node = .ok resource ↔ ∃ embedded location,
      rendering.embedded.get? node = some embedded ∧
        rendering.write tree stack embedded.location = .ok location ∧
        resource = ⟨nestedStackType, ("TemplateURL", location) ::
          suppliedProperty (rendering.wiring.stateOf node).received⟩ := by
  rw [embeddingResource]
  cases rendering.embedded.get? node with
  | none =>
    constructor
    · intro never
      cases never
    · rintro ⟨_, _, never, _⟩
      cases never
  | some embedded =>
    simp only [bind_eq_ok, pure_eq_ok]
    constructor
    · rintro ⟨location, written, rfl⟩
      exact ⟨embedded, location, rfl, written, rfl⟩
    · rintro ⟨_, location, same, written, rfl⟩
      cases same
      exact ⟨location, written, rfl⟩

/-- A construct is rendered as what it is, under its name. -/
theorem declarationOf_eq_some (place : tree.get? node = some found) {name : String}
    {declaration : Declaration} :
    rendering.declarationOf tree stack node = .ok (some (name, declaration)) ↔
      tree.declaredName node = .ok name ∧
        rendering.Writes tree stack node found.construct declaration := by
  have nested : tree.isNested node = found.construct.isNestedStack := by
    rw [Tree.isNested, place]
  rw [Tree.declaredName, nested]
  cases shape : found.construct with
  | parameter parameter =>
    rw [declarationOf_parameter place shape]
    constructor
    · rintro ⟨_, named, same⟩
      cases same
      exact ⟨named, .parameter parameter⟩
    · rintro ⟨named, writes⟩
      cases writes
      exact ⟨name, named, rfl⟩
  | resource resource =>
    rw [declarationOf_resource place shape]
    constructor
    · rintro ⟨properties, written, _, named, same⟩
      cases same
      exact ⟨named, .resource (resolveMembers_eq_ok.mp written)⟩
    · rintro ⟨named, writes⟩
      cases writes with
      | resource written => exact ⟨_, resolveMembers_eq_ok.mpr written, name, named, rfl⟩
  | output spec =>
    rw [declarationOf_output place shape]
    constructor
    · rintro ⟨value, written, _, named, same⟩
      cases same
      exact ⟨named, .output written⟩
    · rintro ⟨named, writes⟩
      cases writes with
      | output written => exact ⟨_, written, name, named, rfl⟩
  | nestedStack =>
    rw [declarationOf_nested place shape]
    constructor
    · rintro ⟨resource, embeds, _, named, same⟩
      obtain ⟨embedded, location, located, written, rfl⟩ := embeddingResource_eq_ok.mp embeds
      cases same
      exact ⟨named, .nestedStack located written⟩
    · rintro ⟨named, writes⟩
      cases writes with
      | nestedStack located written =>
        exact ⟨_, embeddingResource_eq_ok.mpr ⟨_, _, located, written, rfl⟩, name, named, rfl⟩
  | _ =>
    rw [declarationOf, place, Option.map_some, shape]
    constructor
    · intro never
      cases never
    · rintro ⟨_, never⟩
      cases never

/-- A construct with an entry in the template does not come without one. -/
theorem declarationOf_ne_none (place : tree.get? node = some found)
    (isDeclared : found.construct.isDeclared = true) :
    rendering.declarationOf tree stack node ≠ .ok none := by
  intro nothing
  cases shape : found.construct with
  | parameter parameter =>
    obtain ⟨_, _, never⟩ := (declarationOf_parameter place shape).mp nothing
    cases never
  | resource resource =>
    obtain ⟨_, _, _, _, never⟩ := (declarationOf_resource place shape).mp nothing
    cases never
  | output spec =>
    obtain ⟨_, _, _, _, never⟩ := (declarationOf_output place shape).mp nothing
    cases never
  | nestedStack =>
    obtain ⟨_, _, _, _, never⟩ := (declarationOf_nested place shape).mp nothing
    cases never
  | _ =>
    rw [shape] at isDeclared
    cases isDeclared

/-! ### The resources of a template -/

/-- The resource that is declared under a name, if it is one. -/
def resource? : String × Declaration → Option (String × ResourceDecl)
  | (name, .resource declaration) => some (name, declaration)
  | _ => none

theorem resource?_eq_some {added : String × Declaration} {entry : String × ResourceDecl}
    (isResource : resource? added = some entry) : added = (entry.1, .resource entry.2) := by
  obtain ⟨name, declaration⟩ := added
  cases declaration with
  | resource resource =>
    cases isResource
    rfl
  | _ => cases isResource

/-- A declaration under a free name adds its resource behind the others. -/
theorem resources_insert {template : Template} {added : String × Declaration}
    (isFree : template.declares added.1 added.2 = false) :
    (template.insert added.1 added.2).resources =
      template.resources ++ (resource? added).toList := by
  obtain ⟨name, declaration⟩ := added
  cases declaration with
  | resource resource => exact Fields.set_of_fresh isFree
  | _ => exact (List.append_nil _).symm

/-- Declarations added one after the other leave the resources in their order. -/
theorem resources_of_declareAll {additions : List (String × Declaration)} {template : Template}
    (declared : additions.foldlM (fun template added => declare tree stack template added.1 added.2)
      Template.empty = .ok template) :
    template.resources = additions.filterMap resource? := by
  refine foldlM_invariant (fun before state => state.resources = before.filterMap resource?)
    ?_ rfl declared
  intro before added after state next _ listed turned
  obtain ⟨isFree, rfl⟩ := declare_eq_ok turned
  rw [resources_insert isFree, listed, List.filterMap_append, List.filterMap_cons,
    List.filterMap_nil]
  cases resource? added <;> rfl

/-- What is generated comes from what the stack receives, from what it shows, or from assets. -/
theorem mem_generated {wiring : StackWiring} {assetParameters : SortedMap String ParameterDecl}
    {name : String} {declaration : Declaration} :
    (name, declaration) ∈ generated wiring assetParameters ↔
      (∃ value, wiring.received.get? name = some value ∧ .parameter .string = declaration) ∨
        (∃ output, wiring.outputs.get? name = some output ∧ .output output = declaration) ∨
        ∃ parameter, assetParameters.get? name = some parameter ∧
          .parameter parameter = declaration := by
  have entry : ∀ {ν : Type} {map : SortedMap String ν} {write : ν → Declaration},
      (name, declaration) ∈ map.entries.map (fun entry => (entry.1, write entry.2)) ↔
        ∃ value, map.get? name = some value ∧ write value = declaration := by
    intro ν map write
    rw [List.mem_map]
    constructor
    · rintro ⟨⟨_, value⟩, member, same⟩
      cases same
      exact ⟨value, SortedMap.mem_entries.mp member, rfl⟩
    · rintro ⟨value, known, rfl⟩
      exact ⟨(name, value), SortedMap.mem_entries.mpr known, rfl⟩
  rw [generated, List.mem_append, List.mem_append, entry, entry, entry, or_assoc]
  refine or_congr ?_ Iff.rfl
  rw [StackWiring.supplied, SortedMap.get?_mapValues]
  constructor
  · rintro ⟨_, known, same⟩
    obtain ⟨value, received, rfl⟩ := Option.map_eq_some_iff.mp known
    exact ⟨value, received, same⟩
  · rintro ⟨value, received, same⟩
    exact ⟨.string, by rw [received]; rfl, same⟩

/-- Neither wiring nor assets add resources. -/
theorem resources_generated (wiring : StackWiring)
    (assetParameters : SortedMap String ParameterDecl) :
    (generated wiring assetParameters).filterMap resource? = [] := by
  refine List.filterMap_eq_nil_iff.mpr ?_
  rintro ⟨name, declaration⟩ member
  rcases mem_generated.mp member with ⟨_, _, rfl⟩ | ⟨_, _, rfl⟩ | ⟨_, _, rfl⟩ <;> rfl

/-- A stack does not receive a value under the name of a parameter of its assets. -/
theorem Renders.received_ne_asset {assetParameters : SortedMap String ParameterDecl}
    {template : Template} (renders : rendering.Renders tree stack assetParameters template)
    {name : String} {value : Template.Value} {parameter : ParameterDecl}
    (received : (rendering.wiring.stateOf stack).received.get? name = some value)
    (ofAssets : assetParameters.get? name = some parameter) : False := by
  have apart := (List.pairwise_append.mp (List.pairwise_append.mp renders.apart).2.1).2.2
  refine apart (name, .parameter .string) (List.mem_append_left _ ?_) (name, .parameter parameter)
    ?_ rfl rfl
  · refine List.mem_map.mpr ⟨(name, .string), SortedMap.mem_entries.mpr ?_, rfl⟩
    rw [StackWiring.supplied, SortedMap.get?_mapValues, received]
    rfl
  · exact List.mem_map.mpr ⟨(name, parameter), SortedMap.mem_entries.mpr ofAssets, rfl⟩

variable {assetParameters : SortedMap String ParameterDecl} {template : Template}

/-- The resources of a template are those that the members of its stack declare, in the order of the
members. -/
theorem resources_of_template
    (rendered : rendering.template tree stack assetParameters = .ok template) :
    template.resources =
      ((tree.membersOf stack).filterMap (rendering.declared? tree stack)).filterMap resource? := by
  obtain ⟨middle, ofMembers, further⟩ := bind_eq_ok.mp rendered
  obtain ⟨_, folded⟩ := foldlM_declareMember_eq_ok ofMembers
  have listed := resources_of_declareAll (foldlM_append_eq_ok.mpr ⟨middle, folded, further⟩)
  rw [listed, List.filterMap_append, resources_generated, List.append_nil]

/-- What is deployed declares a resource, and nothing else does. -/
theorem resource_of_declared {found : Option (String × Declaration)}
    (declared : rendering.declarationOf tree stack node = .ok found) :
    (tree.isDeployed node = true ∧ ∃ name resource, found = some (name, .resource resource)) ∨
      (tree.isDeployed node = false ∧ found.bind resource? = none) := by
  rw [Tree.isDeployed]
  cases place : tree.get? node with
  | none =>
    rw [declarationOf, place, Option.map_none] at declared
    cases declared
    exact .inr ⟨rfl, rfl⟩
  | some there =>
    rw [Option.any_some]
    cases shape : there.construct with
    | parameter parameter =>
      obtain ⟨_, _, rfl⟩ := (declarationOf_parameter place shape).mp declared
      exact .inr ⟨rfl, rfl⟩
    | resource resource =>
      obtain ⟨_, _, _, _, rfl⟩ := (declarationOf_resource place shape).mp declared
      exact .inl ⟨rfl, _, _, rfl⟩
    | output spec =>
      obtain ⟨_, _, _, _, rfl⟩ := (declarationOf_output place shape).mp declared
      exact .inr ⟨rfl, rfl⟩
    | nestedStack =>
      obtain ⟨_, _, _, _, rfl⟩ := (declarationOf_nested place shape).mp declared
      exact .inl ⟨rfl, _, _, rfl⟩
    | _ =>
      rw [declarationOf, place, Option.map_some, shape] at declared
      cases declared
      exact .inr ⟨rfl, rfl⟩

/-- Each deployed member has its entry, in the order of the members. -/
theorem forall₂_resources {members : List NodeId}
    (all : ∀ member ∈ members, ∃ found, rendering.declarationOf tree stack member = .ok found) :
    List.Forall₂ (fun member entry =>
        rendering.declarationOf tree stack member = .ok (some (entry.1, .resource entry.2)))
      (members.filter tree.isDeployed)
      ((members.filterMap (rendering.declared? tree stack)).filterMap resource?) := by
  rw [List.filterMap_filterMap]
  induction members with
  | nil => exact .nil
  | cons member rest inductionHypothesis =>
    have behind :=
      inductionHypothesis fun other isOther => all other (List.mem_cons_of_mem _ isOther)
    obtain ⟨found, declared⟩ := all member List.mem_cons_self
    have known : (rendering.declared? tree stack member).bind resource? =
        found.bind resource? := by
      rw [declared?_of_ok declared]
    rcases resource_of_declared declared with
      ⟨isDeployed, name, resource, rfl⟩ | ⟨notDeployed, nothing⟩
    · rw [List.filter_cons_of_pos isDeployed, List.filterMap_cons, known]
      exact .cons declared behind
    · rw [List.filter_cons_of_neg (by simp [notDeployed]), List.filterMap_cons, known, nothing]
      exact behind

end Rendering

/-! ### Where the entries of a template come from -/

namespace Prepared

/-- What an entry of a template is there for. -/
inductive Source where
  /-- A construct. -/
  | construct (node : NodeId)
  /-- A value that the stack receives. -/
  | received
  /-- A value that the stack shows or exports. -/
  | shown
  /-- The assets of the stack. -/
  | assets

/-- What the template of a stack has to declare, and for what. -/
inductive Declares (tree : Tree) (prepared : Prepared) (stack : NodeId) :
    Source → String → Declaration → Prop where
  | construct {node : NodeId} {found : Node} {name : String} {declaration : Declaration}
    (place : tree.get? node = some found) (around : tree.parentStack? node = some stack)
    (named : tree.declaredName node = .ok name)
    (writes : prepared.rendering.Writes tree stack node found.construct declaration) :
    Declares tree prepared stack (.construct node) name declaration
  | received {name : String} {value : Template.Value} :
    (prepared.wiring.stateOf stack).received.get? name = some value →
    Declares tree prepared stack .received name (.parameter .string)
  | shown {name : String} {output : OutputDecl} :
    (prepared.wiring.stateOf stack).outputs.get? name = some output →
    Declares tree prepared stack .shown name (.output output)
  | assets {name : String} {parameter : ParameterDecl} : tree.isNested stack = false →
    (prepared.assets.parametersOf stack).get? name = some parameter →
    Declares tree prepared stack .assets name (.parameter parameter)

/-- A template presents a stack: it declares what it has to, each entry for one thing, and its
resources in the order of the tree under names of their own. -/
structure Presents (tree : Tree) (prepared : Prepared) (stack : NodeId) (template : Template) :
    Prop where
  declared : ∀ {source name declaration}, prepared.Declares tree stack source name declaration →
    template.Holds name declaration
  sources : ∀ {name declaration}, template.Holds name declaration →
    ∃! source, prepared.Declares tree stack source name declaration
  ordered : List.Forall₂
    (fun node entry =>
      prepared.Declares tree stack (.construct node) entry.1 (.resource entry.2))
    (tree.preorder.filter (fun node => tree.isDeployed node && tree.parentStack? node = some stack))
    template.resources
  distinct : (Fields.names template.resources).Nodup

variable {tree : Tree} {prepared : Prepared} {assembly : Assembly} {stack node : NodeId}
  {template : Template}

theorem get?_of_parentStack? (around : tree.parentStack? node = some stack) :
    ∃ found, tree.get? node = some found := by
  cases found : tree.parent? node with
  | none =>
    rw [Tree.parentStack?_of_orphan found] at around
    cases around
  | some parent =>
    obtain ⟨place, atNode, _⟩ := Tree.parent?_eq_some found
    exact ⟨place, atNode⟩

/-- What a construct has to declare is what it is rendered as. -/
theorem declares_construct_iff {name : String} {declaration : Declaration} :
    prepared.Declares tree stack (.construct node) name declaration ↔
      tree.parentStack? node = some stack ∧
        prepared.rendering.declarationOf tree stack node = .ok (some (name, declaration)) := by
  constructor
  · intro declares
    cases declares with
    | construct place around named writes =>
      exact ⟨around, (Rendering.declarationOf_eq_some place).mpr ⟨named, writes⟩⟩
  · rintro ⟨around, rendered⟩
    obtain ⟨found, place⟩ := get?_of_parentStack? around
    obtain ⟨named, writes⟩ := (Rendering.declarationOf_eq_some place).mp rendered
    exact .construct place around named writes

/-- What is declared for no construct is generated. -/
theorem mem_generated_of_declares {source : Source} {name : String} {declaration : Declaration}
    (declares : prepared.Declares tree stack source name declaration)
    (noConstruct : ∀ node, source ≠ .construct node) : (name, declaration) ∈
      Rendering.generated (prepared.wiring.stateOf stack)
        (prepared.assetParameters tree stack) := by
  refine Rendering.mem_generated.mpr ?_
  cases declares with
  | construct => exact absurd rfl (noConstruct _)
  | received known => exact .inl ⟨_, known, rfl⟩
  | shown known => exact .inr (.inl ⟨_, known, rfl⟩)
  | assets notNested known =>
    refine .inr (.inr ⟨_, ?_, rfl⟩)
    rw [assetParameters, notNested]
    exact known

/-- What is generated is declared for something. -/
theorem exists_declares_of_generated {name : String} {declaration : Declaration}
    (member : (name, declaration) ∈
      Rendering.generated (prepared.wiring.stateOf stack) (prepared.assetParameters tree stack)) :
    ∃ source, prepared.Declares tree stack source name declaration := by
  rcases Rendering.mem_generated.mp member with
    ⟨_, known, rfl⟩ | ⟨_, known, rfl⟩ | ⟨parameter, known, rfl⟩
  · exact ⟨_, .received known⟩
  · exact ⟨_, .shown known⟩
  · cases isNested : tree.isNested stack with
    | true =>
      rw [assetParameters, isNested] at known
      cases known
    | false =>
      rw [assetParameters, isNested] at known
      exact ⟨_, .assets isNested known⟩

/-- A construct that has an entry in the template of a stack has to declare something there. -/
theorem exists_declares (wellFormed : tree.WellFormed)
    (renders : prepared.rendering.Renders tree stack (prepared.assetParameters tree stack) template)
    {found : Node} (place : tree.get? node = some found)
    (isDeclared : found.construct.isDeclared = true)
    (around : tree.parentStack? node = some stack) :
    ∃ name declaration, prepared.Declares tree stack (.construct node) name declaration := by
  have isMember := (wellFormed.mem_membersOf (Tree.isStack_of_parentStack? around)).mpr around
  obtain ⟨entry, declared⟩ := renders.members node isMember
  cases entry with
  | none => exact absurd declared (Rendering.declarationOf_ne_none place isDeclared)
  | some entry => exact ⟨entry.1, entry.2, declares_construct_iff.mpr ⟨around, declared⟩⟩

section Entries

variable {name : String} {declaration : Declaration} {source second : Source}
  (wellFormed : tree.WellFormed)
  (renders : prepared.rendering.Renders tree stack (prepared.assetParameters tree stack) template)
include renders

/-- Wiring and assets do not compete for a name. -/
theorem source_unique_of_generated
    (declares : prepared.Declares tree stack source name declaration)
    (declaresToo : prepared.Declares tree stack second name declaration)
    (noConstruct : ∀ node, source ≠ .construct node)
    (noConstructToo : ∀ node, second ≠ .construct node) : source = second := by
  have apart : ∀ {value parameter},
      (prepared.wiring.stateOf stack).received.get? name = some value →
      tree.isNested stack = false →
      (prepared.assets.parametersOf stack).get? name = some parameter → False := by
    intro value parameter known notNested ofAssets
    have ofStack : (prepared.assetParameters tree stack).get? name = some parameter := by
      rw [assetParameters, notNested]
      exact ofAssets
    exact renders.received_ne_asset known ofStack
  cases declares with
  | construct => exact absurd rfl (noConstruct _)
  | received known =>
    cases declaresToo with
    | construct => exact absurd rfl (noConstructToo _)
    | received => rfl
    | assets notNested ofAssets => exact (apart known notNested ofAssets).elim
  | shown =>
    cases declaresToo with
    | construct => exact absurd rfl (noConstructToo _)
    | shown => rfl
  | assets notNested ofAssets =>
    cases declaresToo with
    | construct => exact absurd rfl (noConstructToo _)
    | received known => exact (apart known notNested ofAssets).elim
    | assets => rfl

include wellFormed

theorem holds_of_declares (declares : prepared.Declares tree stack source name declaration) :
    template.Holds name declaration := by
  cases source with
  | construct node =>
    obtain ⟨around, rendered⟩ := declares_construct_iff.mp declares
    have isStack := Tree.isStack_of_parentStack? around
    exact renders.holds_member ((wellFormed.mem_membersOf isStack).mpr around) rendered
  | _ =>
    have isGenerated := mem_generated_of_declares declares (fun _ never => nomatch never)
    exact renders.holds _ (List.mem_append_right _ isGenerated)

/-- A construct does not share its entry with wiring or with assets. -/
theorem eq_construct_of_declares
    (declares : prepared.Declares tree stack (.construct node) name declaration)
    (declaresToo : prepared.Declares tree stack second name declaration) :
    .construct node = second := by
  obtain ⟨around, rendered⟩ := declares_construct_iff.mp declares
  have isStack := Tree.isStack_of_parentStack? around
  have isMember := (wellFormed.mem_membersOf isStack).mpr around
  cases second with
  | construct other =>
    obtain ⟨aroundOther, renderedOther⟩ := declares_construct_iff.mp declaresToo
    have isMemberOther := (wellFormed.mem_membersOf isStack).mpr aroundOther
    rw [renders.member_unique isMember isMemberOther rendered renderedOther rfl]
  | _ =>
    have isGenerated := mem_generated_of_declares declaresToo (fun _ never => nomatch never)
    exact (renders.member_ne_generated isMember rendered isGenerated rfl rfl).elim

/-- An entry is there for one thing. -/
theorem source_unique (declares : prepared.Declares tree stack source name declaration)
    (declaresToo : prepared.Declares tree stack second name declaration) : source = second := by
  by_cases isConstruct : ∃ node, source = .construct node
  · obtain ⟨node, rfl⟩ := isConstruct
    exact eq_construct_of_declares wellFormed renders declares declaresToo
  · by_cases isConstructToo : ∃ node, second = .construct node
    · obtain ⟨node, rfl⟩ := isConstructToo
      exact (eq_construct_of_declares wellFormed renders declaresToo declares).symm
    · exact source_unique_of_generated renders declares declaresToo
        (not_exists.mp isConstruct) (not_exists.mp isConstructToo)

/-- Nothing is in a template that its stack does not have to declare. -/
theorem exists_source (isStack : tree.isStack stack = true)
    (holds : template.Holds name declaration) :
    ∃ source, prepared.Declares tree stack source name declaration := by
  rcases List.mem_append.mp (renders.only name declaration holds) with ofMember | isGenerated
  · obtain ⟨node, isMember, known⟩ := List.mem_filterMap.mp ofMember
    obtain ⟨found, rendered⟩ := renders.members node isMember
    rw [Rendering.declared?_of_ok rendered] at known
    rw [known] at rendered
    exact ⟨.construct node,
      declares_construct_iff.mpr ⟨(wellFormed.mem_membersOf isStack).mp isMember, rendered⟩⟩
  · exact exists_declares_of_generated isGenerated

end Entries

/-- A rendered template presents its stack. -/
theorem presents_of_template (wellFormed : tree.WellFormed) (isStack : tree.isStack stack = true)
    (rendered : prepared.rendering.template tree stack (prepared.assetParameters tree stack) =
      .ok template) : prepared.Presents tree stack template := by
  have renders := Rendering.renders_of_template rendered
  constructor
  case declared => exact holds_of_declares wellFormed renders
  case sources =>
    intro name declaration holds
    obtain ⟨source, declares⟩ := exists_source wellFormed renders isStack holds
    exact ⟨source, declares, fun second declaresToo =>
      source_unique wellFormed renders declaresToo declares⟩
  case ordered =>
    rw [Rendering.resources_of_template rendered, ← List.filter_filter,
      ← wellFormed.membersOf_eq isStack]
    have around : ∀ node ∈ (tree.membersOf stack).filter tree.isDeployed,
        tree.parentStack? node = some stack := fun node member =>
      (wellFormed.mem_membersOf isStack).mp (List.mem_filter.mp member).1
    exact ((List.forall₂_and_left _ _).mpr
      ⟨around, Rendering.forall₂_resources renders.members⟩).imp
        fun node entry both => declares_construct_iff.mpr both
  case distinct =>
    rw [Rendering.resources_of_template rendered, Fields.names, List.Nodup, List.pairwise_map,
      List.pairwise_filterMap]
    refine (List.pairwise_append.mp renders.apart).1.imp ?_
    intro first second apart entry isResource other isResourceToo
    rw [Rendering.resource?_eq_some isResource, Rendering.resource?_eq_some isResourceToo] at apart
    exact apart rfl

/-- Every resource of a template is there for a construct. -/
theorem Presents.exists_construct (presents : prepared.Presents tree stack template)
    {entry : String × ResourceDecl} (member : entry ∈ template.resources) :
    ∃ node, prepared.Declares tree stack (.construct node) entry.1 (.resource entry.2) := by
  obtain ⟨place, within, atPlace⟩ := List.getElem_of_mem member
  have ordered := List.forall₂_iff_get.mp presents.ordered
  have declares := ordered.2 place (ordered.1 ▸ within) within
  rw [List.get_eq_getElem, List.get_eq_getElem, atPlace] at declares
  exact ⟨_, declares⟩

/-- A construct that has an entry has one, in one template. -/
theorem declares_unique {first second : NodeId × String × Declaration}
    (declares : prepared.Declares tree first.1 (.construct node) first.2.1 first.2.2)
    (declaresToo : prepared.Declares tree second.1 (.construct node) second.2.1 second.2.2) :
    first = second := by
  obtain ⟨stack, name, declaration⟩ := first
  obtain ⟨other, otherName, otherDeclaration⟩ := second
  obtain ⟨around, rendered⟩ := declares_construct_iff.mp declares
  obtain ⟨aroundToo, renderedToo⟩ := declares_construct_iff.mp declaresToo
  cases Option.some.inj (around.symm.trans aroundToo)
  cases Except.ok.inj (rendered.symm.trans renderedToo)
  rfl

end Prepared

/-- Every document of an assembly is the template of a stack. -/
theorem Assembly.Documents.exists_stack {tree : Tree} {prepared : Prepared} {assembly : Assembly}
    (documents : assembly.Documents tree prepared) {file : String} {template : Template}
    (known : assembly.documents.get? file = some template) :
    ∃ stack, tree.isStack stack = true ∧ prepared.ownTemplate? tree stack = some template := by
  obtain ⟨stack, isStack, rfl⟩ := documents.only file template known
  cases isNested : tree.isNested stack with
  | true =>
    obtain ⟨other, its, isNestedOther, _, own, document⟩ := documents.nested stack isNested
    rw [known] at document
    exact ⟨other, Tree.isStack_of_isNested isNestedOther, Option.some.inj document ▸ own⟩
  | false =>
    obtain ⟨its, own, document⟩ := documents.topLevel stack isStack isNested
    rw [known] at document
    exact ⟨stack, isStack, Option.some.inj document ▸ own⟩

namespace Application

/-- The document of a top-level stack is its own template. -/
theorem ownTemplate_of_document {bundler : Asset.Bundler} {steps : List BuildStep}
    {prepared : Prepared} {assembly : Assembly}
    (ready : (build bundler steps).prepare bundler = .ok prepared)
    (assembled : prepared.assembly (build bundler steps).tree = .ok assembly) (stack : NodeId)
    (isStack : (build bundler steps).tree.isStack stack = true)
    (notNested : (build bundler steps).tree.isNested stack = false) {template : Template}
    (known : assembly.documents.get? ((build bundler steps).tree.documentFile stack) =
      some template) :
    prepared.ownTemplate? (build bundler steps).tree stack = some template := by
  have wellFormed := wellFormed_build bundler steps
  have documents := Assembly.documents_of_prepare wellFormed ready assembled
  obtain ⟨own, isOwn, inFile⟩ := documents.topLevel stack isStack notNested
  exact isOwn.trans (inFile.symm.trans known)

/-- Every stack of a synthesized application is presented by its template. Every parameter, resource
and output and every nested stack is declared in one template, under one name and in one way. Every
document is the template of a stack, and that of a top-level stack is its own. -/
theorem constructs_are_declared_once (bundler : Asset.Bundler) (steps : List BuildStep)
    {prepared : Prepared} {assembly : Assembly}
    (ready : (build bundler steps).prepare bundler = .ok prepared)
    (assembled : prepared.assembly (build bundler steps).tree = .ok assembly) :
    (∀ stack, (build bundler steps).tree.isStack stack = true → ∃ template,
      prepared.ownTemplate? (build bundler steps).tree stack = some template ∧
        prepared.Presents (build bundler steps).tree stack template) ∧
    (∀ node found, (build bundler steps).tree.get? node = some found →
      found.construct.isDeclared = true → ∃! entry : NodeId × String × Declaration,
        prepared.Declares (build bundler steps).tree entry.1 (.construct node) entry.2.1 entry.2.2 ∧
          ∃ template, prepared.ownTemplate? (build bundler steps).tree entry.1 = some template ∧
            template.Holds entry.2.1 entry.2.2) ∧
    (∀ file template, assembly.documents.get? file = some template → ∃ stack,
      (build bundler steps).tree.isStack stack = true ∧
        prepared.ownTemplate? (build bundler steps).tree stack = some template) ∧
    ∀ stack, (build bundler steps).tree.isStack stack = true →
      (build bundler steps).tree.isNested stack = false → ∃ template,
        prepared.ownTemplate? (build bundler steps).tree stack = some template ∧
          assembly.documents.get? (Assembly.templateFile
            ((build bundler steps).tree.stackName stack)) = some template := by
  have wellFormed := wellFormed_build bundler steps
  have documents := Assembly.documents_of_prepare wellFormed ready assembled
  refine ⟨fun stack isStack => ?_, fun node found place isDeclared => ?_,
    fun file template known => documents.exists_stack known,
    fun stack isStack notNested => ?_⟩
  · obtain ⟨template, own, rendered⟩ :=
      Prepared.ownTemplate_of_prepare wellFormed ready assembled isStack
    exact ⟨template, own, Prepared.presents_of_template wellFormed isStack rendered⟩
  · obtain ⟨stack, around⟩ :=
      wellFormed.enclosed place (Construct.needsStack_of_isDeclared isDeclared)
    have isStack := Tree.isStack_of_parentStack? around
    obtain ⟨template, own, rendered⟩ :=
      Prepared.ownTemplate_of_prepare wellFormed ready assembled isStack
    have renders := Rendering.renders_of_template rendered
    obtain ⟨name, declaration, declares⟩ :=
      Prepared.exists_declares wellFormed renders place isDeclared around
    have holds := Prepared.holds_of_declares wellFormed renders declares
    exact ⟨(stack, name, declaration), ⟨declares, template, own, holds⟩,
      fun other both => Prepared.declares_unique both.1 declares⟩
  · have document := documents.topLevel stack isStack notNested
    rwa [Tree.documentFile_of_not_nested notNested] at document

/-- A relay is presented stack by stack, and the second stack in the document of its name. -/
theorem relay_is_presented :
    ∃ prepared assembly, (build Asset.byPath relay).prepare Asset.byPath = .ok prepared ∧
      prepared.assembly (build Asset.byPath relay).tree = .ok assembly ∧
      (∀ stack, (build Asset.byPath relay).tree.isStack stack = true → ∃ template,
        prepared.ownTemplate? (build Asset.byPath relay).tree stack = some template ∧
          prepared.Presents (build Asset.byPath relay).tree stack template) ∧
      ∃ template, prepared.ownTemplate? (build Asset.byPath relay).tree 4 = some template ∧
        assembly.documents.get? "T.template.json" = some template := by
  obtain ⟨prepared, assembly, ready, assembled⟩ := relay_synthesizes
  obtain ⟨presented, _, _, documents⟩ :=
    constructs_are_declared_once Asset.byPath relay ready assembled
  have second : (build Asset.byPath relay).tree.isStack 4 = true ∧
      (build Asset.byPath relay).tree.isNested 4 = false ∧
      Assembly.templateFile ((build Asset.byPath relay).tree.stackName 4) = "T.template.json" := by
    decide +kernel
  obtain ⟨isStack, notNested, file⟩ := second
  exact ⟨prepared, assembly, ready, assembled, presented, file ▸ documents 4 isStack notNested⟩

end Application

end StackSynth
