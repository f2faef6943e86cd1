/-
This file decides when export names are unambiguous. The names that wiring makes for exports tell
their stack and their output, so no two of them are the same. The names that an application gives
to its own outputs are compared with nothing, neither among themselves nor with those of wiring. A
value is always imported by a name of wiring, in the template of a top-level stack that depends on
the one that exports the value.
-/

import StackSynth.Proofs.Synthesis.Linking
import StackSynth.Proofs.Synthesis.Uses

namespace StackSynth

open Outcome

/-! ### Who exports -/

/-- An output that the application declares and exports under a name. -/
def Tree.DeclaresExport (tree : Tree) (node : NodeId) (exported : String) : Prop :=
  ∃ found spec, tree.get? node = some found ∧ found.construct = .output spec ∧
    spec.exported = some exported

namespace Prepared

/-- The template of a stack has an output that is exported under a name. -/
def Exports (tree : Tree) (prepared : Prepared) (stack : NodeId) (name exported : String) : Prop :=
  tree.isStack stack = true ∧ ∃ template output,
    prepared.ownTemplate? tree stack = some template ∧
      template.outputs.get? name = some output ∧ output.exported = some exported

/-- Wiring has added an output to a stack that is exported under a name. -/
def Generates (prepared : Prepared) (stack : NodeId) (name exported : String) : Prop :=
  ∃ output, (prepared.wiring.stateOf stack).outputs.get? name = some output ∧
    output.exported = some exported

/-- A stack exports an output for something. -/
def ExportsFor (tree : Tree) (prepared : Prepared) (stack : NodeId) (source : Source)
    (name exported : String) : Prop :=
  ∃ output, prepared.Declares tree stack source name (.output output) ∧
    output.exported = some exported

/-- An export name that is used twice: two outputs of the application have it, or one of them and an
output that wiring has added. -/
def SharesExport (tree : Tree) (prepared : Prepared) (exported : String) : Prop :=
  (∃ node other, node ≠ other ∧ tree.DeclaresExport node exported ∧
      tree.DeclaresExport other exported) ∨
    ((∃ node, tree.DeclaresExport node exported) ∧
      ∃ stack name, prepared.Generates stack name exported)

/-- Every stack is rendered into its own template. -/
def Finished (tree : Tree) (prepared : Prepared) : Prop :=
  ∀ stack, tree.isStack stack = true → ∃ template,
    prepared.ownTemplate? tree stack = some template ∧
      prepared.rendering.template tree stack (prepared.assetParameters tree stack) = .ok template

variable {tree : Tree} {prepared : Prepared} {stack other node : NodeId}
  {name second exported : String}

/-- What wiring exports is exported by a top-level stack, under a name that tells the stack and the
output. -/
theorem Generates.exportName_eq (generates : prepared.Generates stack name exported)
    (records : prepared.wiring.Records tree (tree.Made prepared.wired))
    (wellFormed : tree.WellFormed) :
    tree.isStack stack = true ∧ tree.isNested stack = false ∧ Naming.IsName name ∧
      exported = Naming.exportName (tree.stackName stack) name := by
  obtain ⟨output, shown, isExported⟩ := generates
  obtain ⟨⟨crossing, passage⟩, made, sameHolder, rfl, declares⟩ := records.shown shown
  obtain ⟨start, next, crosses⟩ := wellFormed.crosses_of_made made
  cases crosses with
  | across isStack outermost =>
    cases sameHolder
    cases declares
    exact ⟨isStack, wellFormed.isNested_of_outermost isStack outermost,
      Naming.isName_exportOutputName _, (Option.some.inj isExported).symm⟩
  | out =>
    cases declares
    cases isExported
  | into => cases declares

/-- What wiring exports under one name is one output. -/
theorem Generates.unique {assembly : Assembly} (generates : prepared.Generates stack name exported)
    (generatesToo : prepared.Generates other second exported)
    (records : prepared.wiring.Records tree (tree.Made prepared.wired))
    (wellFormed : tree.WellFormed) (assembled : prepared.assembly tree = .ok assembly) :
    stack = other ∧ name = second := by
  obtain ⟨isStack, notNested, isName, exportedAs⟩ := generates.exportName_eq records wellFormed
  obtain ⟨isStackOther, notNestedOther, _, exportedToo⟩ :=
    generatesToo.exportName_eq records wellFormed
  exact Assembly.exportName_injective wellFormed assembled isStack notNested isStackOther
    notNestedOther isName (exportedAs.symm.trans exportedToo)

/-- The importer of a value uses its exporter. -/
theorem Provenance.uses_of_across {own further : List (Reference × Boundary)}
    (provenance : prepared.Provenance tree own further)
    (sound : prepared.Sound tree (nestedStacks tree)) (wellFormed : tree.WellFormed)
    {exporter importer : NodeId} {passage : Passage}
    (made : tree.Made prepared.wired ⟨.across exporter importer, passage⟩) :
    exporter ∈ tree.usedBy importer := by
  obtain ⟨entry, member, delivery, delivered, isHop⟩ := made
  have origin := (sound.proper entry member).1.origin
  have imports : tree.import? entry.1 = some (importer, exporter) := by
    have listed : (importer, exporter) ∈
        delivery.hops.filterMap (fun hop => hop.crossing.dependency?) :=
      List.mem_filterMap.mpr ⟨_, isHop, rfl⟩
    rw [wellFormed.dependencies_of_delivery delivered] at listed
    exact Option.mem_toList.mp listed
  have tops := imports
  rw [Tree.import?] at tops
  split at tops
  · rename_i goalTop homeTop goal home
    split at tops
    · cases tops
    · rename_i apart
      cases tops
      obtain ⟨isStack, outermost⟩ := wellFormed.outermost_of_topLevelOf? home
      obtain ⟨isStackGoal, outermostGoal⟩ := wellFormed.outermost_of_topLevelOf? goal
      rw [wellFormed.mem_usedBy isStack outermost]
      rw [provenance.split] at member
      rcases List.mem_append.mp member with isOwn | isFurther
      · obtain ⟨_, proper⟩ := wellFormed.references_eq_ok provenance.found
        obtain ⟨_, node, belongs, consumed⟩ :=
          proper entry.1 (List.mem_map.mpr ⟨entry, isOwn, rfl⟩)
        refine ⟨Ne.symm apart, node, entry.1.leaf, entry.1.producer, ?_, consumed, origin,
          (wellFormed.mem_ancestors_iff isStack outermost).mpr home⟩
        rw [wellFormed.mem_ancestors_iff isStackGoal outermostGoal,
          wellFormed.topLevelOf?_of_stackOf? belongs, goal]
      · -- an address stays within its top-level stack
        obtain ⟨nested, top, hash, slot, forAddress⟩ := provenance.addresses entry isFurther
        obtain ⟨isStackTop, outermostTop⟩ :=
          wellFormed.outermost_of_topLevelOf? forAddress.outermost
        rw [forAddress.leaf] at origin
        rw [← Except.ok.inj origin, wellFormed.topLevelOf?_of_outermost isStackTop outermostTop]
          at home
        have topOfGoal := forAddress.outermost
        rw [wellFormed.topLevelOf?_of_nested (Tree.isStack_of_isNested forAddress.isNested)
          forAddress.around, goal] at topOfGoal
        exact absurd ((Option.some.inj home).symm.trans (Option.some.inj topOfGoal).symm) apart
  · cases tops

/-- A value that crosses between top-level stacks is exported by the name that it gets there. -/
theorem Generates.of_made (records : prepared.wiring.Records tree (tree.Made prepared.wired))
    (wellFormed : tree.WellFormed) {exporter importer : NodeId} {passage : Passage}
    (made : tree.Made prepared.wired ⟨.across exporter importer, passage⟩) :
    prepared.Generates exporter (Naming.exportOutputName passage.value.written)
      (Naming.exportName (tree.stackName exporter)
        (Naming.exportOutputName passage.value.written)) := by
  obtain ⟨output, shown⟩ := records.shows made rfl
  refine ⟨output, shown, ?_⟩
  obtain ⟨⟨crossing, other⟩, madeOther, sameHolder, sameName, outputs⟩ := records.shown shown
  have sameRegister := wellFormed.register_eq_of_made madeOther made sameHolder outputs rfl
  cases crossing with
  | across =>
    cases sameHolder
    cases outputs
    rw [sameName]
    rfl
  | out => cases sameRegister
  | into => cases sameRegister

/-- What is exported is an output of the application or was added by wiring. -/
theorem origin_of_exportsFor {source : Source}
    (exports : prepared.ExportsFor tree stack source name exported) :
    (∃ node, source = .construct node ∧ tree.DeclaresExport node exported) ∨
      (source = .shown ∧ prepared.Generates stack name exported) := by
  obtain ⟨output, declares, isExported⟩ := exports
  cases declares with
  | @construct node found _ _ place _ _ writes =>
    generalize shape : found.construct = construct at writes
    cases writes with
    | output => exact .inl ⟨node, rfl, found, _, place, shape, isExported⟩
  | shown shown => exact .inr ⟨rfl, output, shown, isExported⟩

section Rendered

variable (wellFormed : tree.WellFormed) (rendered : prepared.Finished tree)
include wellFormed rendered

/-- What is exported is what a stack has to export for something. -/
theorem exports_iff : prepared.Exports tree stack name exported ↔
    tree.isStack stack = true ∧ ∃ source, prepared.ExportsFor tree stack source name exported := by
  refine and_congr_right fun isStack => ?_
  obtain ⟨template, own, isRendered⟩ := rendered stack isStack
  have presents := presents_of_template wellFormed isStack isRendered
  constructor
  · rintro ⟨found, output, isOwn, holds, isExported⟩
    cases Option.some.inj (own.symm.trans isOwn)
    have isDeclared : template.Holds name (.output output) := holds
    obtain ⟨source, declares, _⟩ := presents.sources isDeclared
    exact ⟨source, output, declares, isExported⟩
  · rintro ⟨source, output, declares, isExported⟩
    exact ⟨template, output, own, presents.declared declares, isExported⟩

/-- An output is exported for one thing. -/
theorem source_of_exportsFor {source second : Source} {last : String}
    (isStack : tree.isStack stack = true)
    (exports : prepared.ExportsFor tree stack source name exported)
    (exportsToo : prepared.ExportsFor tree stack second name last) : source = second := by
  obtain ⟨template, _, isRendered⟩ := rendered stack isStack
  have presents := presents_of_template wellFormed isStack isRendered
  obtain ⟨output, declares, _⟩ := exports
  obtain ⟨outputToo, declaresToo, _⟩ := exportsToo
  have holds := presents.declared declares
  cases Template.holds_unique holds (presents.declared declaresToo) rfl
  exact (presents.sources holds).unique declares declaresToo

/-- An output of the application is exported by the stack around it. -/
theorem exists_exportsFor (declares : tree.DeclaresExport node exported) :
    ∃ stack name, tree.isStack stack = true ∧
      prepared.ExportsFor tree stack (.construct node) name exported := by
  obtain ⟨found, spec, place, shape, isExported⟩ := declares
  obtain ⟨stack, around⟩ := wellFormed.enclosed place (by rw [shape]; rfl)
  have isStack := Tree.isStack_of_parentStack? around
  obtain ⟨template, _, isRendered⟩ := rendered stack isStack
  obtain ⟨name, declaration, declares⟩ := exists_declares wellFormed
    (Rendering.renders_of_template isRendered) place (by rw [shape]; rfl) around
  have written := declares
  cases written with
  | construct placeAgain _ _ writes =>
    cases Option.some.inj (place.symm.trans placeAgain)
    rw [shape] at writes
    cases writes with
    | output => exact ⟨stack, name, isStack, _, declares, isExported⟩

end Rendered

/-! ### Names that are used twice -/

section Shared

variable {assembly : Assembly} (wellFormed : tree.WellFormed) (finished : prepared.Finished tree)
  (records : prepared.wiring.Records tree (tree.Made prepared.wired))
  (assembled : prepared.assembly tree = .ok assembly)
include wellFormed finished

theorem Generates.exports (generates : prepared.Generates stack name exported)
    (records : prepared.wiring.Records tree (tree.Made prepared.wired)) :
    prepared.Exports tree stack name exported := by
  obtain ⟨isStack, _⟩ := generates.exportName_eq records wellFormed
  obtain ⟨output, shown, isExported⟩ := generates
  exact (exports_iff wellFormed finished).mpr ⟨isStack, .shown, output, .shown shown, isExported⟩

/-- Two things do not export by one entry. -/
theorem entry_ne_of_source_ne {source second : Source} {last : String}
    (isStack : tree.isStack stack = true)
    (exports : prepared.ExportsFor tree stack source name exported)
    (exportsToo : prepared.ExportsFor tree other second last exported) (apart : source ≠ second) :
    (stack, name) ≠ (other, last) := by
  intro same
  cases same
  exact apart (source_of_exportsFor wellFormed finished isStack exports exportsToo)

include records assembled

/-- Two different outputs are exported under one name exactly if the application has given it to two
outputs, or to one while wiring made it for another. -/
theorem exists_exports_iff_sharesExport :
    (∃ first second : NodeId × String, first ≠ second ∧
        prepared.Exports tree first.1 first.2 exported ∧
        prepared.Exports tree second.1 second.2 exported) ↔
      prepared.SharesExport tree exported := by
  constructor
  · rintro ⟨⟨stack, name⟩, ⟨other, last⟩, different, exports, exportsToo⟩
    obtain ⟨isStack, source, exportsFor⟩ := (exports_iff wellFormed finished).mp exports
    obtain ⟨isStackOther, second, exportsForToo⟩ :=
      (exports_iff wellFormed finished).mp exportsToo
    rcases origin_of_exportsFor exportsFor with ⟨node, rfl, declares⟩ | ⟨rfl, generates⟩
    · rcases origin_of_exportsFor exportsForToo with
        ⟨third, rfl, declaresToo⟩ | ⟨rfl, generatesToo⟩
      · refine .inl ⟨node, third, ?_, declares, declaresToo⟩
        rintro rfl
        obtain ⟨output, declared, _⟩ := exportsFor
        obtain ⟨outputToo, declaredToo, _⟩ := exportsForToo
        have same : (stack, name, Declaration.output output) = (other, last, .output outputToo) :=
          declares_unique declared declaredToo
        cases same
        exact different rfl
      · exact .inr ⟨⟨node, declares⟩, other, last, generatesToo⟩
    · rcases origin_of_exportsFor exportsForToo with
        ⟨third, rfl, declaresToo⟩ | ⟨rfl, generatesToo⟩
      · exact .inr ⟨⟨third, declaresToo⟩, stack, name, generates⟩
      · obtain ⟨rfl, rfl⟩ := generates.unique generatesToo records wellFormed assembled
        exact absurd rfl different
  · rintro (⟨node, third, different, declares, declaresToo⟩ |
      ⟨⟨node, declares⟩, other, last, generates⟩)
    · obtain ⟨stack, name, isStack, exportsFor⟩ := exists_exportsFor wellFormed finished declares
      obtain ⟨other, last, isStackOther, exportsForToo⟩ :=
        exists_exportsFor wellFormed finished declaresToo
      refine ⟨(stack, name), (other, last), ?_,
        (exports_iff wellFormed finished).mpr ⟨isStack, _, exportsFor⟩,
        (exports_iff wellFormed finished).mpr ⟨isStackOther, _, exportsForToo⟩⟩
      exact entry_ne_of_source_ne wellFormed finished isStack exportsFor exportsForToo
        (fun same => different (Source.construct.inj same))
    · obtain ⟨stack, name, isStack, exportsFor⟩ := exists_exportsFor wellFormed finished declares
      refine ⟨(stack, name), (other, last), ?_,
        (exports_iff wellFormed finished).mpr ⟨isStack, _, exportsFor⟩,
        generates.exports wellFormed finished records⟩
      obtain ⟨output, shown, isExported⟩ := generates
      exact entry_ne_of_source_ne wellFormed finished isStack exportsFor
        ⟨output, .shown shown, isExported⟩ (fun never => nomatch never)

/-- What wiring exports under a name is the only output of that name, unless the name is used
twice. -/
theorem Generates.only_iff (generates : prepared.Generates stack name exported) :
    (∀ other last, prepared.Exports tree other last exported → other = stack ∧ last = name) ↔
      ¬prepared.SharesExport tree exported := by
  rw [← exists_exports_iff_sharesExport wellFormed finished records assembled]
  constructor
  · rintro only ⟨⟨first, firstName⟩, ⟨second, secondName⟩, different, exports, exportsToo⟩
    obtain ⟨rfl, rfl⟩ := only first firstName exports
    obtain ⟨rfl, rfl⟩ := only second secondName exportsToo
    exact different rfl
  · intro never other last exports
    by_contra different
    refine never ⟨(other, last), (stack, name), fun same => different ?_, exports,
      generates.exports wellFormed finished records⟩
    cases same
    exact ⟨rfl, rfl⟩

end Shared

/-! ### What is imported -/

/-- An import stands in a top-level stack and goes by a name of wiring, which the stack uses. -/
theorem Sound.generates_of_import {own further : List (Reference × Boundary)}
    (sound : prepared.Sound tree (nestedStacks tree)) (wellFormed : tree.WellFormed)
    (provenance : prepared.Provenance tree own further) {template : Template}
    (presents : prepared.Presents tree stack template)
    (imports : .importValue exported ∈ template.links) :
    tree.isStack stack = true ∧ tree.isNested stack = false ∧
      ∃ exporter name, prepared.Generates exporter name exported ∧
        exporter ∈ tree.usedBy stack := by
  rcases sound.linkIn_of_template wellFormed presents imports with
    ⟨_, never⟩ | ⟨leaf, hops, value, stood, isLink⟩
  · cases never
  rcases stood.stands.home_or_arrives wellFormed with
    ⟨rfl, atHome⟩ | ⟨before, hop, start, rfl, _, crosses, arrives⟩
  · cases atHome <;> cases List.mem_singleton.mp isLink
  · have made := stood.made hop (List.mem_append_right _ List.mem_cons_self)
    cases arrives with
    | received | read => cases List.mem_singleton.mp isLink
    | imported passage =>
      cases List.mem_singleton.mp isLink
      cases crosses with
      | across _ _ isStack outermost =>
        exact ⟨isStack, wellFormed.isNested_of_outermost isStack outermost, _, _,
          .of_made sound.accounts.records wellFormed made,
          provenance.uses_of_across sound wellFormed made⟩

end Prepared

/-- The name by which a value imports. -/
def Template.Value.imported? : Template.Value → Option String
  | .importValue name => some name
  | _ => none

theorem Template.Value.eq_importValue_of_imported? {value : Template.Value} {name : String}
    (imports : value.imported? = some name) : value = .importValue name := by
  cases value with
  | importValue =>
    cases imports
    rfl
  | _ => cases imports

namespace Application

/-- In a synthesized application two different outputs share an export name exactly if the
application has given the name to two outputs, or to one while wiring made it for another. Imports
stand in top-level stacks only. Each names an output of another top-level stack that is to be
deployed before, and no other output, unless its name is used twice. -/
theorem imports_designate (bundler : Asset.Bundler) (steps : List BuildStep)
    {prepared : Prepared} {assembly : Assembly}
    (ready : (build bundler steps).prepare bundler = .ok prepared)
    (assembled : prepared.assembly (build bundler steps).tree = .ok assembly) :
    (∀ exported, (∃ first second : NodeId × String, first ≠ second ∧
        prepared.Exports (build bundler steps).tree first.1 first.2 exported ∧
        prepared.Exports (build bundler steps).tree second.1 second.2 exported) ↔
      prepared.SharesExport (build bundler steps).tree exported) ∧
    ∀ stack template exported, (build bundler steps).tree.isStack stack = true →
      prepared.ownTemplate? (build bundler steps).tree stack = some template →
      .importValue exported ∈ template.links →
      (build bundler steps).tree.isNested stack = false ∧ ∃ exporter name,
        prepared.Exports (build bundler steps).tree exporter name exported ∧
        exporter ≠ stack ∧ (build bundler steps).tree.isNested exporter = false ∧
        assembly.manifest.DependsOn ((build bundler steps).tree.stackName stack)
          ((build bundler steps).tree.stackName exporter) ∧
        ((∀ other last, prepared.Exports (build bundler steps).tree other last exported →
            other = exporter ∧ last = name) ↔
          ¬prepared.SharesExport (build bundler steps).tree exported) := by
  have wellFormed := wellFormed_build bundler steps
  have sound := Prepared.sound_of_prepare wellFormed ready
  have records := sound.accounts.records
  have finished : prepared.Finished (build bundler steps).tree := fun stack isStack =>
    Prepared.ownTemplate_of_prepare wellFormed ready assembled isStack
  refine ⟨fun exported => Prepared.exists_exports_iff_sharesExport wellFormed finished records
    assembled, fun stack template exported isStack own imports => ?_⟩
  obtain ⟨same, isOwn, rendered⟩ := finished stack isStack
  cases Option.some.inj (own.symm.trans isOwn)
  have presents := Prepared.presents_of_template wellFormed isStack rendered
  obtain ⟨_, _, provenance⟩ := Prepared.exists_provenance wellFormed ready
  obtain ⟨_, notNested, exporter, name, generates, used⟩ :=
    sound.generates_of_import wellFormed provenance presents imports
  obtain ⟨apart, isStackExporter, notNestedExporter⟩ := wellFormed.outermost_of_usedBy used
  refine ⟨notNested, exporter, name, generates.exports wellFormed finished records, apart,
    notNestedExporter, ?_, generates.only_iff wellFormed finished records assembled⟩
  obtain ⟨artifact, known, describes⟩ :=
    (Assembly.artifacts_of_assembly wellFormed assembled).1 stack isStack notNested
  have graphs := Prepared.graphsUses_of_prepare wellFormed ready
  refine ⟨artifact, known, ?_⟩
  rw [describes.inOrder wellFormed graphs isStack notNested]
  exact List.mem_map.mpr ⟨exporter, used, rfl⟩

/-- A resource of one stack that another stack reads, and an output of the reader that is exported
under the name that wiring makes for the resource. -/
def rivals : List BuildStep :=
  [.topLevelStack 0 "S" ⟨none, .unspecified⟩, .topLevelStack 0 "T" ⟨none, .unspecified⟩,
    .resource 1 "R" ⟨"Bucket", [], none⟩, .resource 2 "U" ⟨"Bucket", [("Name", .reference 3)], none⟩,
    .output 2 "P" ⟨.text "1", none, some "S:ExportsOutputRefR51E72B11"⟩]

/-- The application has an assembly. The documents of both stacks export an output under one name,
and the second one imports by it. -/
theorem rivals_synthesize :
    ∃ prepared assembly first second output rival,
      (build Asset.byPath rivals).prepare Asset.byPath = .ok prepared ∧
      prepared.assembly (build Asset.byPath rivals).tree = .ok assembly ∧
      assembly.documents.get? "S.template.json" = some first ∧
      assembly.documents.get? "T.template.json" = some second ∧
      prepared.ownTemplate? (build Asset.byPath rivals).tree 1 = some first ∧
      prepared.ownTemplate? (build Asset.byPath rivals).tree 2 = some second ∧
      first.outputs.get? "ExportsOutputRefR51E72B11" = some output ∧
      output.exported = some "S:ExportsOutputRefR51E72B11" ∧
      second.outputs.get? "P" = some rival ∧
      rival.exported = some "S:ExportsOutputRefR51E72B11" ∧
      .importValue "S:ExportsOutputRefR51E72B11" ∈ second.links := by
  have seen : ((build Asset.byPath rivals).prepare Asset.byPath).toOption.bind (fun prepared =>
      (prepared.assembly (build Asset.byPath rivals).tree).toOption.bind (fun assembly =>
        (assembly.documents.get? "S.template.json").bind (fun first =>
          (assembly.documents.get? "T.template.json").bind (fun second =>
            (first.outputs.get? "ExportsOutputRefR51E72B11").bind (fun output =>
              (second.outputs.get? "P").map (fun rival =>
                (output.exported, rival.exported,
                  decide ("S:ExportsOutputRefR51E72B11" ∈
                    second.links.filterMap Template.Value.imported?)))))))) =
      some (some "S:ExportsOutputRefR51E72B11", some "S:ExportsOutputRefR51E72B11", true) := by
    decide +kernel
  obtain ⟨prepared, ready, seen⟩ := Option.bind_eq_some_iff.mp seen
  obtain ⟨assembly, assembled, seen⟩ := Option.bind_eq_some_iff.mp seen
  obtain ⟨first, inFirst, seen⟩ := Option.bind_eq_some_iff.mp seen
  obtain ⟨second, inSecond, seen⟩ := Option.bind_eq_some_iff.mp seen
  obtain ⟨output, isOutput, seen⟩ := Option.bind_eq_some_iff.mp seen
  obtain ⟨rival, isRival, seen⟩ := Option.map_eq_some_iff.mp seen
  obtain ⟨exported, seen⟩ := Prod.mk.inj seen
  obtain ⟨exportedToo, isNamed⟩ := Prod.mk.inj seen
  obtain ⟨link, isLink, imports⟩ := List.mem_filterMap.mp (of_decide_eq_true isNamed)
  have isReady := eq_ok_of_toOption ready
  have isAssembled := eq_ok_of_toOption assembled
  have files : "S.template.json" = (build Asset.byPath rivals).tree.documentFile 1 ∧
      "T.template.json" = (build Asset.byPath rivals).tree.documentFile 2 := by
    decide +kernel
  have ownFirst := ownTemplate_of_document isReady isAssembled 1 (by decide +kernel)
    (by decide +kernel) (files.1 ▸ inFirst)
  have ownSecond := ownTemplate_of_document isReady isAssembled 2 (by decide +kernel)
    (by decide +kernel) (files.2 ▸ inSecond)
  exact ⟨prepared, assembly, first, second, output, rival, isReady, isAssembled, inFirst, inSecond,
    ownFirst, ownSecond, isOutput, exported, isRival, exportedToo,
    Template.Value.eq_importValue_of_imported? imports ▸ isLink⟩

/-- The name is used twice: what the second stack imports may be either output. -/
theorem rivals_share_an_export :
    ∃ prepared, (build Asset.byPath rivals).prepare Asset.byPath = .ok prepared ∧
      prepared.SharesExport (build Asset.byPath rivals).tree "S:ExportsOutputRefR51E72B11" ∧
      ∃ exporter name, exporter ≠ 2 ∧
        prepared.Exports (build Asset.byPath rivals).tree exporter name
          "S:ExportsOutputRefR51E72B11" := by
  obtain ⟨prepared, assembly, first, second, output, rival, ready, assembled, _, _, ownFirst,
    ownSecond, isOutput, exported, isRival, exportedToo, imports⟩ := rivals_synthesize
  obtain ⟨shared, designated⟩ := imports_designate Asset.byPath rivals ready assembled
  have isStack : (build Asset.byPath rivals).tree.isStack 1 = true ∧
      (build Asset.byPath rivals).tree.isStack 2 = true := by
    decide +kernel
  obtain ⟨_, exporter, name, exports, apart, _⟩ :=
    designated 2 second _ isStack.2 ownSecond imports
  refine ⟨prepared, ready, (shared _).mp ?_, exporter, name, apart, exports⟩
  exact ⟨(1, "ExportsOutputRefR51E72B11"), (2, "P"), by decide,
    ⟨isStack.1, first, output, ownFirst, isOutput, exported⟩,
    ⟨isStack.2, second, rival, ownSecond, isRival, exportedToo⟩⟩

/-- So export names are not unique, and an import may have two outputs to choose from. -/
theorem rivals_export_alike :
    ∃ assembly first second output rival,
      (build Asset.byPath rivals).synthesize Asset.byPath = .ok assembly ∧
      assembly.documents.get? "S.template.json" = some first ∧
      assembly.documents.get? "T.template.json" = some second ∧
      first.outputs.get? "ExportsOutputRefR51E72B11" = some output ∧
      output.exported = some "S:ExportsOutputRefR51E72B11" ∧
      second.outputs.get? "P" = some rival ∧
      rival.exported = some "S:ExportsOutputRefR51E72B11" ∧
      .importValue "S:ExportsOutputRefR51E72B11" ∈ second.links := by
  obtain ⟨prepared, assembly, first, second, output, rival, ready, assembled, inFirst, inSecond, _,
    _, isOutput, exported, isRival, exportedToo, imports⟩ := rivals_synthesize
  exact ⟨assembly, first, second, output, rival, bind_eq_ok.mpr ⟨prepared, ready, assembled⟩,
    inFirst, inSecond, isOutput, exported, isRival, exportedToo, imports⟩

end Application

end StackSynth
