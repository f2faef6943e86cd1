/-
This file proves how the names in a template are spelled. Whatever a template declares, for a
construct, for wiring or for assets, it declares under a name of letters and digits within the
limit. That the name is not empty rests on the paths of the constructs: a parameter, resource or
output whose path below its stack says nothing is declared under the empty name, and unless there
is one, no name of the template is empty, as wiring makes an empty name only from the path of a
resource that has one itself.
-/

import StackSynth.Proofs.Asset.Registry
import StackSynth.Proofs.Naming.Limits
import StackSynth.Proofs.Synthesis.Presence
import StackSynth.Proofs.Wiring.Standing

namespace StackSynth

open Outcome

namespace Tree

variable {tree : Tree} {stack node : NodeId} {name : String}

/-! ### Names of constructs -/

/-- A parameter, resource or output whose path below its stack leaves nothing to name it by. -/
structure UnnamedIn (tree : Tree) (stack node : NodeId) : Prop where
  place : ∃ found, tree.get? node = some found ∧ found.construct.isDeclared = true ∧
    found.construct.isNestedStack = false
  around : tree.parentStack? node = some stack
  mute : Naming.Mute (tree.componentsBelow stack node)

/-- The path below a construct around it ends the whole path. -/
theorem componentsBelow_suffix (tree : Tree) (ancestor node : NodeId) :
    tree.componentsBelow ancestor node <:+ tree.pathComponents node := by
  rw [componentsBelow, pathComponents, idsOf, idsOf, List.reverse_suffix]
  exact (List.takeWhile_prefix _).filterMap _

/-- The two components of an embedding resource are enough to name it by. -/
theorem not_mute_embedding (above : List String) (id : String) :
    ¬Naming.Mute (above ++ embeddingComponents id) := by
  intro mute
  have counts : ∀ ending : String, '.' ∈ ending.toList →
      id ++ ending ≠ Naming.hiddenComponent := by
    intro ending dotted same
    have inHidden : '.' ∈ Naming.hiddenComponent.toList := by
      rw [← same, String.toList_append]
      exact List.mem_append_right _ dotted
    exact absurd inHidden (by decide)
  have both := (mute.of_sublist (List.sublist_append_right above _)).1
  rw [Naming.visible, embeddingComponents,
    List.filter_cons_of_pos (by simpa using counts _ (by decide)),
    List.filter_cons_of_pos (by simpa using counts _ (by decide))] at both
  exact absurd both (by simp)

/-- The name of an embedding resource is the id of a path that ends in its two components. -/
theorem exists_path_of_embeddingId (named : tree.embeddingId node = .ok name) :
    ∃ above id, name = Naming.uniqueId (above ++ embeddingComponents id) := by
  obtain ⟨found, _, named⟩ := bind_eq_ok.mp named
  split at named
  · cases named
    exact ⟨_, found.id, rfl⟩
  · cases named

theorem embeddingId_ne_empty (named : tree.embeddingId node = .ok name) : name ≠ "" := by
  obtain ⟨above, id, rfl⟩ := exists_path_of_embeddingId named
  exact fun empty => not_mute_embedding above id (Naming.uniqueId_eq_empty_iff.mp empty)

/-- Constructs are named within the limit. -/
theorem spelled_declaredName (named : tree.declaredName node = .ok name) :
    Naming.Spelled name := by
  rw [declaredName] at named
  split at named
  · obtain ⟨_, _, rfl⟩ := exists_path_of_embeddingId named
    exact Naming.spelled_uniqueId _
  · rw [logicalId] at named
    split at named
    · cases named
      exact Naming.spelled_uniqueId _
    · cases named

/-- A construct that is not a nested stack is named by its path below its stack. -/
theorem declaredName_of_not_nested (notNested : tree.isNested node = false)
    (around : tree.parentStack? node = some stack) :
    tree.declaredName node = .ok (Naming.uniqueId (tree.componentsBelow stack node)) := by
  rw [declaredName, notNested, logicalId, around]
  rfl

end Tree

/-! ### Names on the way of a value -/

namespace Hop

/-- Values are named within the limit at every border. -/
theorem spelled_name (hop : Hop) : Naming.Spelled hop.name := by
  obtain ⟨crossing, passage⟩ := hop
  cases crossing with
  | out stack => exact Naming.spelled_outputName passage.path passage.attr
  | across exporter importer => exact Naming.spelled_exportOutputName passage.value.written
  | into stack => exact Naming.spelled_parameterName passage.path passage.attr

/-- A value without a name is shown by a nested stack. -/
theorem out_of_name_empty {hop : Hop} (empty : hop.name = "") : ∃ stack,
    hop.crossing = .out stack ∧ Naming.Mute hop.passage.path ∧
      Naming.alphanumeric hop.passage.attr = "" := by
  obtain ⟨crossing, passage⟩ := hop
  cases crossing with
  | out stack =>
    have shown : Naming.outputName passage.path passage.attr = "" := empty
    exact ⟨stack, rfl, Naming.outputName_eq_empty_iff.mp shown⟩
  | across exporter importer =>
    exact absurd empty (Naming.exportOutputName_ne_empty passage.value.written)
  | into stack => exact absurd empty (Naming.parameterName_ne_empty passage.path passage.attr)

end Hop

namespace Tree

variable {tree : Tree} {stack : NodeId} {leaf : Leaf} {producer : Producer}

/-- Only at home can an attribute without letters and digits leave a nested stack: behind a border
that it crosses to a stack around, the attribute is the output or the name that it got there. -/
theorem WellFormed.home_of_silent (wellFormed : tree.WellFormed) {goal : NodeId}
    {delivery : Delivery} (delivered : tree.delivery producer goal = .ok delivery) {hop : Hop}
    (isHop : hop ∈ delivery.hops) (goesOut : hop.crossing = .out stack)
    (silent : Naming.alphanumeric hop.passage.attr = "") :
    stack = producer.home ∧ hop.passage = producer.passage := by
  obtain ⟨route, found, _, travelled⟩ := delivery_eq_ok delivered
  -- a value that crosses to another top-level stack keeps its attribute, but goes out of none
  have invariant := journey_induction (fun hops place passage =>
    (∀ hop ∈ hops, ∀ shown, hop.crossing = .out shown →
      Naming.alphanumeric hop.passage.attr = "" →
      shown = producer.home ∧ hop.passage = producer.passage) ∧
    (Naming.alphanumeric passage.attr = "" →
      (place = producer.home ∧ passage = producer.passage) ∨ tree.parentStack? place = none))
    ?_ ⟨fun _ never => absurd never List.not_mem_nil, fun _ => .inl ⟨rfl, rfl⟩⟩
    (wellFormed.leads_of_route found) travelled
  · exact invariant.1 hop isHop stack goesOut silent
  · rintro hops start next crossing passage behind ⟨before, here⟩ crosses moved
    constructor
    · intro other member shown isOut isSilent
      rcases List.mem_append.mp member with early | last
      · exact before other early shown isOut isSilent
      · cases List.mem_singleton.mp last
        cases crosses with
        | out _ around =>
          cases isOut
          refine (here isSilent).resolve_right fun outermost => ?_
          rw [outermost] at around
          cases around
        | across => cases isOut
        | into => cases isOut
    · intro isSilent
      cases crosses with
      | out =>
        obtain ⟨_, _, moved⟩ := bind_eq_ok.mp moved
        obtain ⟨_, _, same⟩ := bind_eq_ok.mp moved
        cases same
        exact absurd isSilent (Naming.alphanumeric_embeddedOutput_ne_empty _)
      | across _ _ _ outermost => exact .inr outermost
      | into =>
        cases moved
        exact absurd isSilent Naming.alphanumeric_ref_ne_empty

/-- The only attributes without letters and digits are those of resources. -/
theorem resource_of_silent (origin : tree.producer leaf = .ok producer)
    (silent : Naming.alphanumeric producer.attr = "") :
    ∃ node found, tree.get? node = some found ∧ (∃ resource, found.construct = .resource resource) ∧
      tree.parentStack? node = some producer.home ∧
      producer.path = tree.pathComponents node := by
  have spoken : ∀ attr : StackAttribute, Naming.alphanumeric (identityAttribute attr) ≠ "" := by
    rintro (_ | _) <;> decide
  cases produces_of_producer origin with
  | resource attr resourceIn =>
    obtain ⟨found, resource, place, shape⟩ := resourceIn.place
    exact ⟨_, found, place, ⟨resource, shape⟩, resourceIn.around, rfl⟩
  | parameter | slot => exact absurd silent Naming.alphanumeric_ref_ne_empty
  | own attr | nested attr => exact absurd silent (spoken attr)

end Tree

/-! ### Names in a template -/

namespace Prepared

variable {tree : Tree} {prepared : Prepared} {stack node : NodeId} {source : Source}
  {name : String} {declaration : Declaration}

/-- Everything that a stack has to declare has a name within the limit. -/
theorem Declares.spelled (accounts : prepared.wiring.Accounts tree prepared.wired)
    (declares : prepared.Declares tree stack source name declaration) : Naming.Spelled name := by
  cases declares with
  | construct _ _ named _ => exact Tree.spelled_declaredName named
  | received known =>
    obtain ⟨hop, _, _, rfl, _⟩ := accounts.records.received known
    exact hop.spelled_name
  | shown known =>
    obtain ⟨hop, _, _, rfl, _⟩ := accounts.records.shown known
    exact hop.spelled_name
  | assets _ known =>
    obtain ⟨record, _, slot, _, rfl, _⟩ := Asset.Registry.of_get?_parametersOf known
    exact Naming.spelled_uniqueId _

/-- A construct without a name is no nested stack, and its path says nothing. -/
theorem unnamedIn_of_declares
    (declares : prepared.Declares tree stack (.construct node) "" declaration) :
    tree.UnnamedIn stack node := by
  cases declares with
  | @construct _ found _ _ place around named writes =>
    have notNested : tree.isNested node = false := by
      by_contra isNested
      rw [Tree.declaredName, if_pos (by simpa using isNested)] at named
      exact Tree.embeddingId_ne_empty named rfl
    rw [Tree.declaredName_of_not_nested notNested around] at named
    have isDeclared : found.construct.isDeclared = true := by
      generalize found.construct = construct at writes
      cases writes <;> rfl
    rw [Tree.isNested, place] at notNested
    exact ⟨⟨found, place, isDeclared, notNested⟩, around,
      Naming.uniqueId_eq_empty_iff.mp (Except.ok.inj named)⟩

/-- What wiring shows under the empty name is an attribute of a resource without a name. -/
theorem unnamedIn_of_shown (wellFormed : tree.WellFormed)
    {done : List NodeId} (sound : prepared.Sound tree done) {hop : Hop}
    (made : tree.Made prepared.wired hop) (empty : hop.name = "") :
    ∃ node, tree.UnnamedIn hop.crossing.holder node := by
  obtain ⟨entry, member, delivery, delivered, isHop⟩ := made
  obtain ⟨shown, goesOut, mute, silent⟩ := Hop.out_of_name_empty empty
  obtain ⟨rfl, atHome⟩ := wellFormed.home_of_silent delivered isHop goesOut silent
  rw [atHome] at mute silent
  obtain ⟨node, found, place, ⟨resource, shape⟩, around, path⟩ :=
    Tree.resource_of_silent (sound.proper entry member).1.origin silent
  have wholeMute : Naming.Mute (tree.pathComponents node) := path ▸ mute
  rw [goesOut]
  refine ⟨node, ⟨found, place, ?_, ?_⟩, around,
    wholeMute.of_sublist (tree.componentsBelow_suffix _ node).sublist⟩
  · rw [shape]
    rfl
  · rw [shape]
    rfl

/-- Nothing is declared under the empty name unless a construct is. -/
theorem Declares.exists_unnamedIn (wellFormed : tree.WellFormed) {done : List NodeId}
    (sound : prepared.Sound tree done)
    (declares : prepared.Declares tree stack source "" declaration) :
    ∃ node, tree.UnnamedIn stack node := by
  cases source with
  | construct node => exact ⟨node, unnamedIn_of_declares declares⟩
  | received =>
    cases declares with
    | received known =>
      obtain ⟨⟨crossing, passage⟩, _, _, named, supplied⟩ := sound.accounts.records.received known
      cases crossing with
      | into holder => exact absurd named (Naming.parameterName_ne_empty passage.path passage.attr)
      | out | across => cases supplied
  | shown =>
    cases declares with
    | shown known =>
      obtain ⟨hop, made, rfl, named, _⟩ := sound.accounts.records.shown known
      exact unnamedIn_of_shown wellFormed sound made named
  | assets =>
    cases declares with
    | assets _ known =>
      obtain ⟨record, _, slot, _, named, _⟩ := Asset.Registry.of_get?_parametersOf known
      exact absurd named.symm (Naming.assetParameterName_ne_empty record.hash slot)

end Prepared

namespace Application

/-- Every name in a synthesized template consists of letters and digits within the limit, and the
template of a stack declares the empty name exactly if the stack has a parameter, resource or
output whose path leaves nothing to name it by. Every document is the template of a stack. -/
theorem names_are_spelled (bundler : Asset.Bundler) (steps : List BuildStep)
    {prepared : Prepared} {assembly : Assembly}
    (ready : (build bundler steps).prepare bundler = .ok prepared)
    (assembled : prepared.assembly (build bundler steps).tree = .ok assembly) :
    (∀ stack, (build bundler steps).tree.isStack stack = true → ∃ template,
      prepared.ownTemplate? (build bundler steps).tree stack = some template ∧
        (∀ name declaration, template.Holds name declaration → Naming.Spelled name) ∧
        ((∃ declaration, template.Holds "" declaration) ↔
          ∃ node, (build bundler steps).tree.UnnamedIn stack node)) ∧
    ∀ file template, assembly.documents.get? file = some template → ∃ stack,
      (build bundler steps).tree.isStack stack = true ∧
        prepared.ownTemplate? (build bundler steps).tree stack = some template := by
  have wellFormed := wellFormed_build bundler steps
  have sound := Prepared.sound_of_prepare wellFormed ready
  refine ⟨fun stack isStack => ?_, fun file template known =>
    (Assembly.documents_of_prepare wellFormed ready assembled).exists_stack known⟩
  obtain ⟨template, own, rendered⟩ :=
    Prepared.ownTemplate_of_prepare wellFormed ready assembled isStack
  have presents := Prepared.presents_of_template wellFormed isStack rendered
  refine ⟨template, own, ?_, ?_, ?_⟩
  · intro name declaration holds
    obtain ⟨source, declares, _⟩ := presents.sources holds
    exact declares.spelled sound.accounts
  · rintro ⟨declaration, holds⟩
    obtain ⟨source, declares, _⟩ := presents.sources holds
    exact declares.exists_unnamedIn wellFormed sound
  · rintro ⟨node, ⟨found, place, isDeclared, notNested⟩, around, mute⟩
    have renders := Rendering.renders_of_template rendered
    obtain ⟨name, declaration, declares⟩ :=
      Prepared.exists_declares wellFormed renders place isDeclared around
    have holds := presents.declared declares
    cases declares with
    | construct _ _ named _ =>
      have notNestedThere : (build bundler steps).tree.isNested node = false := by
        rw [Tree.isNested, place]
        exact notNested
      rw [Tree.declaredName_of_not_nested notNestedThere around,
        Naming.uniqueId_eq_empty_iff.mpr mute] at named
      cases named
      exact ⟨declaration, holds⟩

/-- A relay is spelled without empty names. -/
theorem relay_is_spelled :
    ∃ prepared assembly, (build Asset.byPath relay).prepare Asset.byPath = .ok prepared ∧
      prepared.assembly (build Asset.byPath relay).tree = .ok assembly ∧
      ∀ file template, assembly.documents.get? file = some template →
        ∀ name declaration, template.Holds name declaration →
          Naming.Spelled name ∧ name ≠ "" := by
  obtain ⟨prepared, assembly, ready, assembled⟩ := relay_synthesizes
  obtain ⟨presents, documents⟩ := names_are_spelled Asset.byPath relay ready assembled
  have allNamed : ∀ node < 7, ((build Asset.byPath relay).tree.parentStack? node).all (fun stack =>
      decide ¬Naming.Mute ((build Asset.byPath relay).tree.componentsBelow stack node)) = true := by
    decide +kernel
  refine ⟨prepared, assembly, ready, assembled, fun file template known name declaration holds =>
    ?_⟩
  obtain ⟨stack, isStack, own⟩ := documents file template known
  obtain ⟨_, isOwn, spelled, unnamed⟩ := presents stack isStack
  cases Option.some.inj (own.symm.trans isOwn)
  refine ⟨spelled name declaration holds, ?_⟩
  rintro rfl
  obtain ⟨node, ⟨found, place, _⟩, around, mute⟩ := unnamed.mp ⟨declaration, holds⟩
  have count : (build Asset.byPath relay).tree.size = 7 := by decide +kernel
  have within := count ▸ Tree.lt_of_get? place
  have isNamed := allNamed node within
  rw [around, Option.all_some] at isNamed
  exact of_decide_eq_true isNamed mute

/-- A resource directly below its stack whose id has no letters that count. -/
def unnamed : List BuildStep :=
  [.topLevelStack 0 "S" ⟨none, .unspecified⟩, .resource 1 "バケツ" ⟨"Bucket", [], none⟩]

/-- It is deployed under the empty name, so not every name in a synthesized template has letters or
digits. -/
theorem unnamed_resource_is_deployed :
    ∃ assembly template, (build Asset.byPath unnamed).synthesize Asset.byPath = .ok assembly ∧
      assembly.documents.get? "S.template.json" = some template ∧
      ∃ declaration, template.Holds "" declaration := by
  have seen : ((build Asset.byPath unnamed).synthesize Asset.byPath).toOption.bind (fun assembly =>
      (assembly.documents.get? "S.template.json").map (fun template =>
        (Fields.get? "" template.resources).map ResourceDecl.type)) = some (some "Bucket") := by
    decide +kernel
  obtain ⟨assembly, assembled, seen⟩ := Option.bind_eq_some_iff.mp seen
  obtain ⟨template, document, seen⟩ := Option.map_eq_some_iff.mp seen
  obtain ⟨resource, declared, _⟩ := Option.map_eq_some_iff.mp seen
  exact ⟨assembly, template, eq_ok_of_toOption assembled, document, .resource resource, declared⟩

end Application

end StackSynth
