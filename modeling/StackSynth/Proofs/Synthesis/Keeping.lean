/-
This file decides when an assembly keeps every document. A top-level stack always finds its own
template in its document: stack names are compared when stacks are added, and no stack name ends
like the file of a nested stack. The files of nested stacks are named after their ids, which nobody
compares, so two nested stacks share a file exactly if their paths are confused: if they differ in
hidden components only, or if one has an id without a suffix that is spelled like the id of the
other. Then one of the two documents is lost.
-/

import StackSynth.Proofs.Naming.Spelling
import StackSynth.Proofs.Synthesis.Documents

namespace StackSynth

open Outcome

variable {tree : Tree} {prepared : Prepared} {assembly : Assembly} {stack other : NodeId}

/-! ### Paths of constructs -/

namespace Tree

theorem ne_root_of_mem_ancestors {node : NodeId} :
    ∀ {start : NodeId}, node ∈ tree.ancestors start → node ≠ rootId := by
  intro start
  induction start using Nat.strongRecOn with
  | _ start inductionHypothesis =>
    intro member
    rw [ancestors] at member
    split at member
    · cases member
    · rename_i notRoot
      rcases List.mem_cons.mp member with rfl | above
      · exact notRoot
      · split at above
        · cases above
        · split at above
          · rename_i older
            exact inductionHypothesis _ older above
          · cases above

/-- The components of every path are usable. -/
theorem WellFormed.usable_path (wellFormed : tree.WellFormed) (node : NodeId) :
    Naming.Usable (tree.pathComponents node) := by
  intro component member
  rw [pathComponents, idsOf, List.mem_reverse, List.mem_filterMap] at member
  obtain ⟨above, isAbove, named⟩ := member
  obtain ⟨found, place, rfl⟩ := Option.map_eq_some_iff.mp named
  exact wellFormed.usableId place (ne_root_of_mem_ancestors isAbove)

/-- No two constructs stand at one place. -/
theorem WellFormed.path_injective (wellFormed : tree.WellFormed) {node second : NodeId}
    (within : node < tree.size) (withinToo : second < tree.size)
    (same : tree.path node = tree.path second) : node = second := by
  obtain ⟨_, place⟩ := get?_of_lt within
  obtain ⟨_, placeToo⟩ := get?_of_lt withinToo
  exact wellFormed.pathComponents_injective place placeToo
    (Naming.intercalate_injective (wellFormed.usable_path node) (wellFormed.usable_path second)
      same)

end Tree

/-! ### Files -/

theorem Prepared.nestedFile_eq_iff :
    Prepared.nestedFile tree stack = Prepared.nestedFile tree other ↔
      tree.uniqueId stack = tree.uniqueId other := by
  constructor
  · intro same
    have sameLetters : (tree.uniqueId stack).toList ++ ".nested.template.json".toList =
        (tree.uniqueId other).toList ++ ".nested.template.json".toList := by
      simpa only [nestedFile, String.toList_append] using congrArg String.toList same
    exact String.ext_iff.mpr (List.append_cancel_right sameLetters)
  · exact congrArg (· ++ ".nested.template.json")

/-- No top-level stack has the file of a nested stack. -/
theorem Tree.WellFormed.templateFile_ne_nestedFile (wellFormed : tree.WellFormed)
    (isStack : tree.isStack stack = true) (notNested : tree.isNested stack = false) :
    Assembly.templateFile (tree.stackName stack) ≠ Prepared.nestedFile tree other := by
  intro same
  have sameName : Assembly.templateFile (tree.stackName stack) =
      Assembly.templateFile (tree.uniqueId other ++ ".nested") := by
    rw [same, Prepared.nestedFile, Assembly.templateFile, String.append_assoc]
    rfl
  have isName := wellFormed.isStackName_stackName isStack notNested
  rw [Assembly.templateFile_injective sameName] at isName
  have dot : '.' ∈ (tree.uniqueId other ++ ".nested").toList := by
    rw [String.toList_append]
    exact List.mem_append_right _ List.mem_cons_self
  exact absurd (Naming.letters_of_isStackName isName '.' dot) (by decide)

/-- Stacks that share a file are of one kind. -/
theorem Tree.WellFormed.isNested_of_sameFile (wellFormed : tree.WellFormed)
    (isStack : tree.isStack stack = true) (isStackOther : tree.isStack other = true)
    (sameFile : tree.documentFile stack = tree.documentFile other) :
    tree.isNested stack = tree.isNested other := by
  cases isNested : tree.isNested stack <;> cases isNestedOther : tree.isNested other
  case false.false | true.true => rfl
  case true.false =>
    rw [documentFile_of_nested isNested, documentFile_of_not_nested isNestedOther] at sameFile
    exact absurd sameFile.symm (wellFormed.templateFile_ne_nestedFile isStackOther isNestedOther)
  case false.true =>
    rw [documentFile_of_not_nested isNested, documentFile_of_nested isNestedOther] at sameFile
    exact absurd sameFile (wellFormed.templateFile_ne_nestedFile isStack isNested)

/-! ### Documents of nested stacks -/

namespace Assembly

section AddEmbedded

variable {embeddeds : List EmbeddedTemplate} {file : String} {template : Template}

/-- A document is of the last addition to its file, or was there before. -/
theorem of_foldl_addEmbedded :
    ∀ {assembly : Assembly},
      (embeddeds.foldl addEmbedded assembly).documents.get? file = some template →
      (assembly.documents.get? file = some template ∧
          ∀ embedded ∈ embeddeds, embedded.file ≠ file) ∨
        ∃ embedded ∈ embeddeds, embedded.file = file ∧ embedded.template = template := by
  induction embeddeds with
  | nil => exact fun found => .inl ⟨found, fun _ never => nomatch never⟩
  | cons first rest inductionHypothesis =>
    intro assembly found
    rw [List.foldl_cons] at found
    rcases inductionHypothesis found with ⟨before, untouched⟩ | ⟨embedded, member, same⟩
    · by_cases here : file = first.file
      · subst here
        have atFirst := (SortedMap.get?_insert_self assembly.documents first.file
          first.template).symm.trans before
        exact .inr ⟨first, List.mem_cons_self, rfl, Option.some.inj atFirst⟩
      · refine .inl
          ⟨(SortedMap.get?_insert_of_ne here).symm.trans before, fun embedded member => ?_⟩
        rcases List.mem_cons.mp member with rfl | later
        · exact Ne.symm here
        · exact untouched embedded later
    · exact .inr ⟨embedded, List.mem_cons_of_mem _ member, same⟩

/-- No addition takes a file away. -/
theorem exists_foldl_addEmbedded :
    ∀ {assembly : Assembly}, ((∃ template, assembly.documents.get? file = some template) ∨
        ∃ embedded ∈ embeddeds, embedded.file = file) →
      ∃ template, (embeddeds.foldl addEmbedded assembly).documents.get? file = some template := by
  induction embeddeds with
  | nil => exact fun known => known.elim id fun ⟨_, never, _⟩ => nomatch never
  | cons first rest inductionHypothesis =>
    intro assembly known
    rw [List.foldl_cons]
    refine inductionHypothesis ?_
    by_cases here : file = first.file
    · subst here
      exact .inl ⟨first.template, SortedMap.get?_insert_self _ _ _⟩
    · rcases known with ⟨template, before⟩ | ⟨embedded, member, atFile⟩
      · exact .inl ⟨template, (SortedMap.get?_insert_of_ne here).trans before⟩
      · rcases List.mem_cons.mp member with rfl | later
        · exact absurd atFile.symm here
        · exact .inr ⟨embedded, later, atFile⟩

end AddEmbedded

/-- The documents of an assembly, one by one. -/
structure Documents (tree : Tree) (prepared : Prepared) (assembly : Assembly) : Prop where
  /-- The document of a top-level stack is its own. -/
  topLevel : ∀ stack, tree.isStack stack = true → tree.isNested stack = false →
    ∃ template, prepared.ownTemplate? tree stack = some template ∧
      assembly.documents.get? (tree.documentFile stack) = some template
  /-- The document in the file of a nested stack is of a nested stack with that file. -/
  nested : ∀ stack, tree.isNested stack = true → ∃ other template,
    tree.isNested other = true ∧ tree.documentFile other = tree.documentFile stack ∧
      prepared.ownTemplate? tree other = some template ∧
      assembly.documents.get? (tree.documentFile stack) = some template
  only : ∀ file template, assembly.documents.get? file = some template →
    ∃ stack, tree.isStack stack = true ∧ file = tree.documentFile stack
  /-- No two top-level stacks share a file. -/
  named : ∀ first second, tree.isStack first = true → tree.isNested first = false →
    tree.isStack second = true → tree.isNested second = false →
    tree.documentFile first = tree.documentFile second → first = second

/-- What has been embedded is the template of a nested stack, meant for its file. -/
theorem exists_nested_of_mem_embedded {done : List NodeId} (sound : prepared.Sound tree done)
    {embedded : EmbeddedTemplate} (member : embedded ∈ prepared.rendering.embedded.values) :
    ∃ stack, tree.isNested stack = true ∧ embedded.file = Prepared.nestedFile tree stack ∧
      prepared.ownTemplate? tree stack = some embedded.template := by
  obtain ⟨⟨stack, _⟩, isEntry, rfl⟩ := List.mem_map.mp member
  have located := SortedMap.mem_entries.mp isEntry
  obtain ⟨known, _, _, embeds⟩ := sound.embeds stack (sound.only located)
  have sameEmbedded := embeds.located
  rw [located] at sameEmbedded
  cases sameEmbedded
  refine ⟨stack, embeds.isNested, embeds.file, ?_⟩
  rw [Prepared.ownTemplate?, if_pos embeds.isNested, located]
  rfl

theorem documents_of_assembly {done : List NodeId} (sound : prepared.Sound tree done)
    (wellFormed : tree.WellFormed) (all : ∀ nested, tree.isNested nested = true → nested ∈ done)
    (assembled : prepared.assembly tree = .ok assembly) :
    assembly.Documents tree prepared := by
  have sameAssembly := assembled
  obtain ⟨top, run, same⟩ := bind_eq_ok.mp sameAssembly
  cases same
  have holds := holdsStacks_of_foldlM run
  constructor
  case topLevel =>
    intro stack isStack notNested
    have listed := wellFormed.mem_topLevelStacks.mpr ⟨isStack, notNested⟩
    obtain ⟨template, rendered, document⟩ := holds.rendered stack listed
    refine ⟨template, ?_, ?_⟩
    · rw [Prepared.ownTemplate?, notNested, rendered]
      rfl
    · rw [Tree.documentFile_of_not_nested notNested]
      obtain ⟨found, atEnd⟩ := exists_foldl_addEmbedded (.inl ⟨template, document⟩)
      rcases of_foldl_addEmbedded atEnd with ⟨before, _⟩ | ⟨embedded, member, atFile, _⟩
      · rw [atEnd, ← before, document]
      · obtain ⟨nested, _, itsFile, _⟩ := exists_nested_of_mem_embedded sound member
        exact absurd (atFile.symm.trans itsFile)
          (wellFormed.templateFile_ne_nestedFile isStack notNested)
  case nested =>
    intro stack isNested
    obtain ⟨embedded, _, _, embeds⟩ := sound.embeds stack (all stack isNested)
    have member : embedded ∈ prepared.rendering.embedded.values :=
      List.mem_map.mpr ⟨(stack, embedded), SortedMap.mem_entries.mpr embeds.located, rfl⟩
    rw [Tree.documentFile_of_nested isNested]
    obtain ⟨found, atEnd⟩ := exists_foldl_addEmbedded (.inr ⟨embedded, member, embeds.file⟩)
    rcases of_foldl_addEmbedded atEnd with ⟨_, untouched⟩ | ⟨last, isLast, atFile, sameTemplate⟩
    · exact absurd embeds.file (untouched embedded member)
    · obtain ⟨other, isNestedOther, itsFile, own⟩ := exists_nested_of_mem_embedded sound isLast
      have otherFile := Tree.documentFile_of_nested isNestedOther
      exact ⟨other, found, isNestedOther, otherFile.trans (itsFile.symm.trans atFile),
        sameTemplate ▸ own, atEnd⟩
  case only =>
    intro file template found
    rcases of_foldl_addEmbedded found with ⟨before, _⟩ | ⟨embedded, member, atFile, _⟩
    · obtain ⟨stack, listed, sameFile⟩ := holds.only before
      obtain ⟨isStack, notNested⟩ := wellFormed.mem_topLevelStacks.mp listed
      exact ⟨stack, isStack, sameFile.trans (Tree.documentFile_of_not_nested notNested).symm⟩
    · obtain ⟨nested, isNested, itsFile, _⟩ := exists_nested_of_mem_embedded sound member
      have nestedFile := Tree.documentFile_of_nested isNested
      exact ⟨nested, Tree.isStack_of_isNested isNested,
        atFile.symm.trans (itsFile.trans nestedFile.symm)⟩
  case named =>
    intro first second isStackFirst notNestedFirst isStackSecond notNestedSecond sameFile
    rw [Tree.documentFile_of_not_nested notNestedFirst,
      Tree.documentFile_of_not_nested notNestedSecond] at sameFile
    exact stackName_injective wellFormed assembled isStackFirst notNestedFirst isStackSecond
      notNestedSecond (templateFile_injective sameFile)

theorem documents_of_prepare {app : Application} {bundler : Asset.Bundler}
    (wellFormed : app.tree.WellFormed) (ready : app.prepare bundler = .ok prepared)
    (assembled : prepared.assembly app.tree = .ok assembly) :
    assembly.Documents app.tree prepared :=
  documents_of_assembly (Prepared.sound_of_prepare wellFormed ready) wellFormed
    (fun _ isNested => (Prepared.mem_nestedStacks wellFormed).mpr isNested) assembled

/-- A top-level stack is described in the manifest, and its template is in the document that is
named there. -/
theorem exists_artifact (wellFormed : tree.WellFormed)
    (sound : prepared.Sound tree (Prepared.nestedStacks tree))
    (assembled : prepared.assembly tree = .ok assembly) {stack : NodeId}
    (isStack : tree.isStack stack = true) (notNested : tree.isNested stack = false) :
    ∃ template artifact,
      assembly.templateOf? (tree.stackName stack) = some template ∧
      assembly.manifest.artifacts.get? (tree.stackName stack) = some artifact ∧
      Describes tree prepared stack artifact ∧
      prepared.rendering.template tree stack (prepared.assets.parametersOf stack) =
        .ok template := by
  obtain ⟨artifact, described, describes⟩ :=
    (artifacts_of_assembly wellFormed assembled).1 stack isStack notNested
  obtain ⟨template, own, document⟩ :=
    (documents_of_assembly sound wellFormed
      (fun _ isNested => (Prepared.mem_nestedStacks wellFormed).mpr isNested)
      assembled).topLevel stack isStack notNested
  rw [Prepared.ownTemplate?, notNested] at own
  rw [Tree.documentFile_of_not_nested notNested] at document
  refine ⟨template, artifact, ?_, described, describes, eq_ok_of_toOption own⟩
  rw [templateOf?, described]
  show assembly.documents.get? artifact.templateFile = some template
  rw [describes.templateFile]
  exact document

/-! ### When every document is kept -/

/-- Every stack has a file of its own with its own template in it, and there is nothing else. -/
structure Keeps (tree : Tree) (prepared : Prepared) (assembly : Assembly) : Prop where
  distinct : ∀ first second, tree.isStack first = true → tree.isStack second = true →
    tree.documentFile first = tree.documentFile second → first = second
  own : ∀ stack, tree.isStack stack = true → ∃ template,
    prepared.ownTemplate? tree stack = some template ∧
      assembly.documents.get? (tree.documentFile stack) = some template
  only : ∀ file template, assembly.documents.get? file = some template →
    ∃ stack, tree.isStack stack = true ∧ file = tree.documentFile stack

/-- Documents that are kept are the templates of the stacks, each in its file. -/
theorem Keeps.get?_eq_some (keeps : assembly.Keeps tree prepared) {file : String}
    {template : Template} : assembly.documents.get? file = some template ↔
      ∃ stack, tree.isStack stack = true ∧ tree.documentFile stack = file ∧
        prepared.ownTemplate? tree stack = some template := by
  have atFile : ∀ {stack}, tree.isStack stack = true →
      assembly.documents.get? (tree.documentFile stack) = prepared.ownTemplate? tree stack := by
    intro stack isStack
    obtain ⟨template, own, document⟩ := keeps.own stack isStack
    rw [document, own]
  constructor
  · intro document
    obtain ⟨stack, isStack, rfl⟩ := keeps.only file template document
    exact ⟨stack, isStack, rfl, (atFile isStack).symm.trans document⟩
  · rintro ⟨stack, isStack, rfl, own⟩
    exact (atFile isStack).trans own

/-- Every document is kept exactly if no two nested stacks share a file. -/
theorem Documents.keeps_iff (documents : assembly.Documents tree prepared)
    (wellFormed : tree.WellFormed) :
    assembly.Keeps tree prepared ↔ ∀ first second, tree.isNested first = true →
      tree.isNested second = true → first ≠ second →
      Prepared.nestedFile tree first ≠ Prepared.nestedFile tree second := by
  constructor
  · intro keeps first second isNestedFirst isNestedSecond different sameFile
    refine different (keeps.distinct first second (Tree.isStack_of_isNested isNestedFirst)
      (Tree.isStack_of_isNested isNestedSecond) ?_)
    rw [Tree.documentFile_of_nested isNestedFirst, Tree.documentFile_of_nested isNestedSecond,
      sameFile]
  · intro apart
    have ofNested : ∀ {first second}, tree.isNested first = true → tree.isNested second = true →
        tree.documentFile first = tree.documentFile second → first = second := by
      intro first second isNestedFirst isNestedSecond sameFile
      rw [Tree.documentFile_of_nested isNestedFirst,
        Tree.documentFile_of_nested isNestedSecond] at sameFile
      by_contra different
      exact apart first second isNestedFirst isNestedSecond different sameFile
    constructor
    case distinct =>
      intro first second isStackFirst isStackSecond sameFile
      have sameKind := wellFormed.isNested_of_sameFile isStackFirst isStackSecond sameFile
      cases isNested : tree.isNested first with
      | true => exact ofNested isNested (sameKind ▸ isNested) sameFile
      | false =>
        exact documents.named first second isStackFirst isNested isStackSecond
          (sameKind ▸ isNested) sameFile
    case own =>
      intro stack isStack
      cases isNested : tree.isNested stack with
      | true =>
        obtain ⟨other, template, isNestedOther, sameFile, own, document⟩ :=
          documents.nested stack isNested
        exact ⟨template, ofNested isNestedOther isNested sameFile ▸ own, document⟩
      | false => exact documents.topLevel stack isStack isNested
    case only => exact documents.only

end Assembly

namespace Application

/-- In a synthesized application whose nested stacks have suffixes that tell their paths apart,
every top-level stack finds its own template in its document, and every document is kept exactly if
no two nested stacks have confused paths. -/
theorem documents_kept_iff (bundler : Asset.Bundler) (steps : List BuildStep)
    {prepared : Prepared} {assembly : Assembly}
    (ready : (build bundler steps).prepare bundler = .ok prepared)
    (assembled : prepared.assembly (build bundler steps).tree = .ok assembly)
    (separate : ∀ first second, (build bundler steps).tree.isNested first = true →
      (build bundler steps).tree.isNested second = true →
      Naming.Separate ((build bundler steps).tree.pathComponents first)
        ((build bundler steps).tree.pathComponents second)) :
    (∀ stack, (build bundler steps).tree.isStack stack = true →
      (build bundler steps).tree.isNested stack = false →
      ∃ template, prepared.ownTemplate? (build bundler steps).tree stack = some template ∧
        assembly.documents.get? ((build bundler steps).tree.documentFile stack) = some template) ∧
    (assembly.Keeps (build bundler steps).tree prepared ↔
      ∀ first second, (build bundler steps).tree.isNested first = true →
        (build bundler steps).tree.isNested second = true → first ≠ second →
        ¬Naming.Confused ((build bundler steps).tree.pathComponents first)
          ((build bundler steps).tree.pathComponents second)) := by
  have wellFormed := wellFormed_build bundler steps
  have documents := Assembly.documents_of_assembly (Prepared.sound_of_prepare wellFormed ready)
    wellFormed (fun nested isNested => (Prepared.mem_nestedStacks wellFormed).mpr isNested)
    assembled
  refine ⟨documents.topLevel, (documents.keeps_iff wellFormed).trans ?_⟩
  refine forall_congr' fun first => forall_congr' fun second => ?_
  refine forall_congr' fun isNestedFirst => forall_congr' fun isNestedSecond => ?_
  refine imp_congr_right fun _ => not_congr ?_
  exact Prepared.nestedFile_eq_iff.trans (Naming.uniqueId_eq_iff (wellFormed.usable_path first)
    (wellFormed.usable_path second) (separate first second isNestedFirst isNestedSecond))

/-- The two nested stacks of a relay have paths that are not confused, so every document is
kept. -/
theorem relay_keeps_documents :
    ∃ prepared assembly, (build Asset.byPath relay).prepare Asset.byPath = .ok prepared ∧
      prepared.assembly (build Asset.byPath relay).tree = .ok assembly ∧
      assembly.Keeps (build Asset.byPath relay).tree prepared := by
  obtain ⟨prepared, assembly, ready, assembled⟩ := relay_synthesizes
  have nestedOnes : ∀ {stack}, (build Asset.byPath relay).tree.isNested stack = true →
      stack = 2 ∨ stack = 5 := by
    intro stack isNested
    have listed : Prepared.nestedStacks (build Asset.byPath relay).tree = [2, 5] := by
      decide +kernel
    have member := (Prepared.mem_nestedStacks (wellFormed_build Asset.byPath relay)).mpr isNested
    simpa [listed] using member
  have inFirst : (build Asset.byPath relay).tree.pathComponents 2 = ["S", "N"] := by
    decide +kernel
  have inSecond : (build Asset.byPath relay).tree.pathComponents 5 = ["T", "M"] := by
    decide +kernel
  have apart : idSuffix "S/N" ≠ idSuffix "T/M" := by decide +kernel
  have textFirst : Naming.hashedText? ["S", "N"] = some "S/N" := by decide
  have textSecond : Naming.hashedText? ["T", "M"] = some "T/M" := by decide
  refine ⟨prepared, assembly, ready, assembled,
    (documents_kept_iff Asset.byPath relay ready assembled ?_).2.mpr ?_⟩
  · intro first second isNestedFirst isNestedSecond text other hashed hashedOther sameSuffix
    rcases nestedOnes isNestedFirst with rfl | rfl <;>
      rcases nestedOnes isNestedSecond with rfl | rfl
    · exact Option.some.inj (hashed.symm.trans hashedOther)
    · rw [inFirst, textFirst] at hashed
      rw [inSecond, textSecond] at hashedOther
      cases hashed
      cases hashedOther
      exact absurd sameSuffix apart
    · rw [inSecond, textSecond] at hashed
      rw [inFirst, textFirst] at hashedOther
      cases hashed
      cases hashedOther
      exact absurd sameSuffix.symm apart
    · exact Option.some.inj (hashed.symm.trans hashedOther)
  · have notConfused : ¬Naming.Confused ["S", "N"] ["T", "M"] ∧
        ¬Naming.Confused ["T", "M"] ["S", "N"] := by
      rw [Naming.Confused, Naming.Confused]
      decide +kernel
    intro first second isNestedFirst isNestedSecond different
    rcases nestedOnes isNestedFirst with rfl | rfl <;>
      rcases nestedOnes isNestedSecond with rfl | rfl
    · exact absurd rfl different
    · rw [inFirst, inSecond]
      exact notConfused.1
    · rw [inFirst, inSecond]
      exact notConfused.2
    · exact absurd rfl different

/-- Two stacks whose ids differ in a hyphen only, each with a nested stack of the hidden id. -/
def namesakes : List BuildStep :=
  [.topLevelStack 0 "ab" ⟨none, .unspecified⟩, .nestedStack 1 "Default",
    .resource 2 "X" ⟨"Bucket", [], none⟩, .topLevelStack 0 "a-b" ⟨none, .unspecified⟩,
    .nestedStack 4 "Default", .resource 5 "Y" ⟨"Bucket", [], none⟩]

/-- The nested stacks of both share a file: four stacks have three documents, though no suffix is
to blame, as the ids of the nested stacks have none. -/
theorem namesakes_lose_a_document :
    ∃ prepared assembly, (build Asset.byPath namesakes).prepare Asset.byPath = .ok prepared ∧
      prepared.assembly (build Asset.byPath namesakes).tree = .ok assembly ∧
      (∀ stack, (build Asset.byPath namesakes).tree.isNested stack = true →
        Naming.hashedText? ((build Asset.byPath namesakes).tree.pathComponents stack) = none) ∧
      (build Asset.byPath namesakes).tree.allStacks = [1, 2, 4, 5] ∧
      assembly.documents.size = 3 ∧
      ¬assembly.Keeps (build Asset.byPath namesakes).tree prepared := by
  have size : ((build Asset.byPath namesakes).synthesize Asset.byPath).toOption.map
      (fun assembly => assembly.documents.size) = some 3 := by
    decide +kernel
  have inTree : (build Asset.byPath namesakes).tree.allStacks = [1, 2, 4, 5] := by decide +kernel
  have sameFile : (build Asset.byPath namesakes).tree.documentFile 2 =
      (build Asset.byPath namesakes).tree.documentFile 5 := by
    decide +kernel
  have isStack : ∀ stack ∈ [1, 2, 4, 5], (build Asset.byPath namesakes).tree.isStack stack = true :=
    fun stack member => (wellFormed_build Asset.byPath namesakes).mem_allStacks.mp (inTree ▸ member)
  obtain ⟨assembly, synthesized, three⟩ := exists_of_map_toOption size
  obtain ⟨prepared, ready, assembled⟩ := exists_of_synthesize synthesized
  refine ⟨prepared, assembly, ready, assembled, ?_, inTree, three, fun keeps => ?_⟩
  · intro stack isNested
    have listed : Prepared.nestedStacks (build Asset.byPath namesakes).tree = [2, 5] := by
      decide +kernel
    have member :=
      (Prepared.mem_nestedStacks (wellFormed_build Asset.byPath namesakes)).mpr isNested
    rw [listed] at member
    have plain : ∀ nested ∈ [2, 5], Naming.hashedText?
        ((build Asset.byPath namesakes).tree.pathComponents nested) = none := by
      decide +kernel
    exact plain stack member
  · have same := keeps.distinct 2 5 (isStack 2 (by decide)) (isStack 5 (by decide)) sameFile
    cases same

end Application

end StackSynth
