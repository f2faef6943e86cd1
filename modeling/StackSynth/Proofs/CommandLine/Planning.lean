/-
This file proves what a plan of deployment tells of an application. The graph behind it holds the
top-level stacks and what they use, and its waves hold each of them once. But a plan speaks of
stacks by name, and planning does not refuse two stacks of one name: then the name comes twice in
the waves, the table has one row for both, and what one of them uses is lost.
-/

import StackSynth.CommandLine.Run
import StackSynth.Proofs.Definition.Building
import StackSynth.Proofs.Deployment.Registration
import StackSynth.Proofs.FileSystem.Exclusion
import StackSynth.Proofs.Formats
import StackSynth.Proofs.Synthesis.Uses
import StackSynth.Proofs.Template.Sections

namespace StackSynth

open Outcome GraphCall

/-! ### The graph behind a plan -/

/-- The stacks between which a reference adds a dependency are top-level stacks. -/
theorem Tree.WellFormed.topLevel_of_import? {tree : Tree} (wellFormed : tree.WellFormed)
    {reference : Reference} {pair : NodeId × NodeId}
    (imports : tree.import? reference = some pair) :
    pair.1 ∈ tree.topLevelStacks ∧ pair.2 ∈ tree.topLevelStacks := by
  have topLevel : ∀ {node top}, tree.topLevelOf? node = some top → top ∈ tree.topLevelStacks := by
    intro node top found
    obtain ⟨isStack, outermost⟩ := wellFormed.outermost_of_topLevelOf? found
    exact wellFormed.mem_topLevelStacks.mpr
      ⟨isStack, wellFormed.isNested_of_outermost isStack outermost⟩
  rw [Tree.import?] at imports
  split at imports
  · rename_i importer exporter goal home
    split at imports
    · cases imports
    · cases imports
      exact ⟨topLevel goal, topLevel home⟩
  · cases imports

namespace Prepared

/-- The calls that make the graph of a preparation: the top-level stacks are registered, and then
the dependencies of the references are added. -/
def graphCalls (tree : Tree) (references : List Reference) : List GraphCall :=
  tree.topLevelStacks.map (fun stack => .register stack (tree.stackName stack))
    ++ (references.filterMap tree.import?).map (fun pair => .depend pair.1 pair.2)

variable {app : Application} {bundler : Asset.Bundler} {prepared : Prepared} {tree : Tree}
  {references : List Reference} {stack : NodeId} {waves : List (List NodeId)}
  {algorithms : GraphAlgorithms}

theorem ofCalls_graphCalls (tree : Tree) (references : List Reference) :
    DeployGraph.ofCalls (graphCalls tree references) =
      (stackGraph tree).addAll (references.filterMap tree.import?) := by
  rw [DeployGraph.ofCalls, graphCalls, List.foldl_append, List.foldl_map, List.foldl_map]
  rfl

/-- The calls are about the top-level stacks. -/
theorem mentions_graphCalls (wellFormed : tree.WellFormed) :
    Mentions (graphCalls tree references) stack ↔ stack ∈ tree.topLevelStacks := by
  constructor
  · rintro ⟨call, isCall, isSubject⟩
    rcases List.mem_append.mp isCall with registers | depends
    · obtain ⟨other, topLevel, rfl⟩ := List.mem_map.mp registers
      exact List.mem_singleton.mp isSubject ▸ topLevel
    · obtain ⟨pair, isPair, rfl⟩ := List.mem_map.mp depends
      obtain ⟨reference, _, imports⟩ := List.mem_filterMap.mp isPair
      obtain ⟨importer, exporter⟩ := wellFormed.topLevel_of_import? imports
      rcases List.mem_cons.mp isSubject with rfl | isExporter
      · exact importer
      · exact List.mem_singleton.mp isExporter ▸ exporter
  · intro topLevel
    exact ⟨.register stack (tree.stackName stack),
      List.mem_append_left _ (List.mem_map.mpr ⟨stack, topLevel, rfl⟩), List.mem_cons_self⟩

/-- The waves of a preparation hold every top-level stack once, and behind all that it uses. -/
theorem waves_of_prepare (wellFormed : app.tree.WellFormed)
    (ready : app.prepare bundler = .ok prepared)
    (found : prepared.graph.wavesBy algorithms = .ok waves) :
    waves.flatten.Perm app.tree.topLevelStacks ∧
      ∀ stack ∈ app.tree.topLevelStacks, ∀ used ∈ app.tree.usedBy stack,
        ∀ index, StackDigraph.OnLevel waves index stack →
          ∃ earlier < index, StackDigraph.OnLevel waves earlier used := by
  obtain ⟨references, _, graph, _⟩ := graph_of_prepare wellFormed ready
  rw [← ofCalls_graphCalls] at graph
  have registers := DeployGraph.registers_ofCalls (graphCalls app.tree references)
  rw [← graph] at registers
  have deploys := registers.deploys found
  have onceInTree : app.tree.topLevelStacks.Nodup :=
    ((Tree.nodup_preorder wellFormed.ordered).filter _).filter _
  constructor
  · exact (List.perm_ext_iff_of_nodup deploys.once onceInTree).mpr fun stack =>
      (deploys.every stack).trans (mentions_graphCalls wellFormed)
  · intro stack topLevel used isUsed index onLevel
    obtain ⟨isStack, notNested⟩ := wellFormed.mem_topLevelStacks.mp topLevel
    have graphs := graphsUses_of_prepare wellFormed ready
    rw [← graphs.dependencies stack isStack notNested] at isUsed
    have needs := registers.dependsOn_iff.mp isUsed
    cases index with
    | zero => exact absurd needs (((deploys.first stack).mp onLevel).2 used)
    | succ index =>
      obtain ⟨earlier, before, isEarlier⟩ := ((deploys.behind stack index).mp onLevel).2 used needs
      exact ⟨earlier, Nat.lt_succ_of_le before, isEarlier⟩

end Prepared

/-! ### A plan in names -/

namespace CommandLine

/-- A name stands in a wave. -/
def InWave (waves : List (List String)) (index : Nat) (name : String) : Prop :=
  ∃ wave, waves[index]? = some wave ∧ name ∈ wave

namespace DeployPlan

/-- A plan lists the top-level stacks of an application. -/
structure Lists (plan : DeployPlan) (tree : Tree) : Prop where
  /-- There is a name for every stack. -/
  names : plan.waves.flatten.Perm (tree.topLevelStacks.map tree.stackName)
  /-- Every name has a row. -/
  rows : ∀ name, (∃ row, plan.dependencies.get? name = some row) ↔ name ∈ plan.waves.flatten
  /-- A row tells what some stack of its name uses. -/
  own : ∀ name row, plan.dependencies.get? name = some row → ∃ stack ∈ tree.topLevelStacks,
    tree.stackName stack = name ∧ row = (tree.usedBy stack).map tree.stackName
  /-- The name of what a stack uses comes before a name of the stack. -/
  behind : ∀ stack ∈ tree.topLevelStacks, ∀ used ∈ tree.usedBy stack, ∃ earlier later,
    earlier < later ∧ InWave plan.waves earlier (tree.stackName used) ∧
      InWave plan.waves later (tree.stackName stack)

/-- A plan reports every top-level stack: by one name, with its own row, and behind the names in
that row. -/
structure Reports (plan : DeployPlan) (tree : Tree) : Prop extends plan.Lists tree where
  once : plan.waves.flatten.Nodup
  every : ∀ stack ∈ tree.topLevelStacks, plan.dependencies.get? (tree.stackName stack) =
    some ((tree.usedBy stack).map tree.stackName)
  earlier : ∀ name row, plan.dependencies.get? name = some row → ∀ used ∈ row,
    ∀ index, InWave plan.waves index name → ∃ earlier < index, InWave plan.waves earlier used

/-- A plan as it is written: its waves, each a list of names, and a row for each of its names, in
their order. -/
structure Written (plan : DeployPlan) (answer : Json) : Prop where
  sections : answer.names = ["waves", "dependencies"]
  waves : answer.member? "waves" =
    some (.array (plan.waves.map fun wave => .array (wave.map .string)))
  rowNames : answer.sectionNames "dependencies" = plan.dependencies.keys
  rows : ∀ name, answer.entry? "dependencies" name =
    (plan.dependencies.get? name).map fun row => .array (row.map .string)

theorem written (plan : DeployPlan) : plan.Written plan.toJson where
  sections := rfl
  waves := rfl
  rowNames := SortedMap.keys_mapValues Json.strings plan.dependencies
  rows name := by
    show Fields.get? name (plan.dependencies.mapValues Json.strings).entries = _
    rw [Fields.get?_entries, SortedMap.get?_mapValues]
    rfl

variable {app : Application} {bundler : Asset.Bundler} {prepared : Prepared} {plan : DeployPlan}
  {algorithms : GraphAlgorithms}

/-- The row that planning makes for a top-level stack tells what it uses. -/
theorem row_of_prepare {tree : Tree} (wellFormed : tree.WellFormed)
    (graphs : Prepared.GraphsUses tree prepared.graph) {stack : NodeId}
    (topLevel : stack ∈ tree.topLevelStacks) {row : List String}
    (found : prepared.graph.dependencyNames stack = .ok row) :
    row = (tree.usedBy stack).map tree.stackName := by
  obtain ⟨isStack, notNested⟩ := wellFormed.mem_topLevelStacks.mp topLevel
  rw [DeployGraph.dependencyNames] at found
  split at found
  · rw [← Except.ok.inj found, graphs.dependencies stack isStack notNested]
    refine List.map_congr_left fun other isUsed => ?_
    obtain ⟨_, isStackOther, notNestedOther⟩ := wellFormed.outermost_of_usedBy isUsed
    exact graphs.name other isStackOther notNestedOther
  · cases found

/-- A plan is made of the waves of the stacks and of a row for each of them, all in names. -/
theorem exists_of_ofPrepared (wellFormed : app.tree.WellFormed)
    (ready : app.prepare bundler = .ok prepared)
    (planned : ofPrepared app.tree prepared algorithms = .ok plan) :
    ∃ waves rows, prepared.graph.wavesBy algorithms = .ok waves ∧
      plan.waves = waves.map (·.map app.tree.stackName) ∧
      plan.dependencies = SortedMap.ofList rows ∧
      ∀ entry, entry ∈ rows ↔ ∃ stack ∈ app.tree.topLevelStacks,
        entry = (app.tree.stackName stack, (app.tree.usedBy stack).map app.tree.stackName) := by
  have graphs := Prepared.graphsUses_of_prepare wellFormed ready
  have named : ∀ stack ∈ app.tree.topLevelStacks,
      prepared.graph.name stack = app.tree.stackName stack := by
    intro stack topLevel
    obtain ⟨isStack, notNested⟩ := wellFormed.mem_topLevelStacks.mp topLevel
    exact graphs.name stack isStack notNested
  obtain ⟨waves, found, planned⟩ := bind_eq_ok.mp planned
  obtain ⟨rows, listed, same⟩ := bind_eq_ok.mp planned
  cases same
  rw [mapError_eq_ok] at found
  obtain ⟨perm, _⟩ := Prepared.waves_of_prepare wellFormed ready found
  refine ⟨waves, rows, found, ?_, rfl, fun entry => ?_⟩
  · refine List.map_congr_left fun wave isWave => List.map_congr_left fun stack inWave => ?_
    exact named stack (perm.mem_iff.mp (List.mem_flatten.mpr ⟨wave, isWave, inWave⟩))
  · have made : ∀ stack ∈ app.tree.topLevelStacks, ∀ entry,
        (do return (prepared.graph.name stack,
            ← (prepared.graph.dependencyNames stack).mapError .ofUnplaced) :
          Except Failure (String × List String)) = .ok entry →
        entry = (app.tree.stackName stack, (app.tree.usedBy stack).map app.tree.stackName) := by
      intro stack topLevel entry done
      obtain ⟨row, isRow, same⟩ := bind_eq_ok.mp done
      cases same
      rw [named stack topLevel,
        row_of_prepare wellFormed graphs topLevel (mapError_eq_ok.mp isRow)]
    obtain ⟨all, only⟩ := mem_of_mapM_eq_ok listed
    constructor
    · intro isEntry
      obtain ⟨stack, topLevel, done⟩ := only entry isEntry
      exact ⟨stack, topLevel, made stack topLevel entry done⟩
    · rintro ⟨stack, topLevel, rfl⟩
      obtain ⟨entry, isEntry, done⟩ := all stack topLevel
      exact made stack topLevel entry done ▸ isEntry

theorem inWave_map {waves : List (List NodeId)} {named : NodeId → String} {index : Nat}
    {name : String} : InWave (waves.map (·.map named)) index name ↔
      ∃ stack, StackDigraph.OnLevel waves index stack ∧ named stack = name := by
  rw [InWave, List.getElem?_map]
  constructor
  · rintro ⟨_, isWave, inWave⟩
    obtain ⟨wave, found, rfl⟩ := Option.map_eq_some_iff.mp isWave
    obtain ⟨stack, member, rfl⟩ := List.mem_map.mp inWave
    exact ⟨stack, ⟨wave, found, member⟩, rfl⟩
  · rintro ⟨stack, ⟨wave, found, member⟩, rfl⟩
    exact ⟨wave.map named, by rw [found]; rfl, List.mem_map.mpr ⟨stack, member, rfl⟩⟩

section Planned

variable (wellFormed : app.tree.WellFormed) (ready : app.prepare bundler = .ok prepared)
  (planned : ofPrepared app.tree prepared algorithms = .ok plan)
include wellFormed ready planned

/-- A plan lists the top-level stacks. -/
theorem lists_of_planned : plan.Lists app.tree := by
  obtain ⟨waves, rows, found, isWaves, isTable, isRow⟩ :=
    exists_of_ofPrepared wellFormed ready planned
  obtain ⟨perm, behind⟩ := Prepared.waves_of_prepare wellFormed ready found
  have names : plan.waves.flatten.Perm (app.tree.topLevelStacks.map app.tree.stackName) := by
    rw [isWaves, ← List.map_flatten]
    exact perm.map _
  constructor
  case names => exact names
  case rows =>
    intro name
    rw [isTable, ← SortedMap.contains_iff, SortedMap.contains_ofList, names.mem_iff, List.mem_map]
    constructor
    · rintro ⟨row, isEntry⟩
      obtain ⟨stack, topLevel, same⟩ := (isRow _).mp isEntry
      exact ⟨stack, topLevel, (congrArg Prod.fst same).symm⟩
    · rintro ⟨stack, topLevel, rfl⟩
      exact ⟨_, (isRow _).mpr ⟨stack, topLevel, rfl⟩⟩
  case own =>
    intro name row known
    rw [isTable] at known
    obtain ⟨stack, topLevel, same⟩ := (isRow _).mp (SortedMap.mem_of_get?_ofList known)
    obtain ⟨rfl, rfl⟩ := Prod.mk.inj same
    exact ⟨stack, topLevel, rfl, rfl⟩
  case behind =>
    intro stack topLevel used isUsed
    obtain ⟨later, isLater⟩ := StackDigraph.mem_flatten_iff.mp (perm.mem_iff.mpr topLevel)
    obtain ⟨earlier, before, isEarlier⟩ := behind stack topLevel used isUsed later isLater
    rw [isWaves]
    exact ⟨earlier, later, before, inWave_map.mpr ⟨used, isEarlier, rfl⟩,
      inWave_map.mpr ⟨stack, isLater, rfl⟩⟩

/-- If no two top-level stacks share a name, a plan reports all of them. -/
theorem reports_of_distinct
    (distinct : (app.tree.topLevelStacks.map app.tree.stackName).Nodup) :
    plan.Reports app.tree := by
  have lists := lists_of_planned wellFormed ready planned
  obtain ⟨waves, rows, found, isWaves, _, _⟩ := exists_of_ofPrepared wellFormed ready planned
  obtain ⟨perm, behind⟩ := Prepared.waves_of_prepare wellFormed ready found
  have injective : ∀ {stack other}, stack ∈ app.tree.topLevelStacks →
      other ∈ app.tree.topLevelStacks → app.tree.stackName stack = app.tree.stackName other →
      stack = other :=
    fun topLevel topLevelToo => List.inj_on_of_nodup_map distinct topLevel topLevelToo
  refine ⟨lists, lists.names.nodup_iff.mpr distinct, fun stack topLevel => ?_,
    fun name row known used inRow index inWave => ?_⟩
  · have listed : app.tree.stackName stack ∈ plan.waves.flatten :=
      lists.names.mem_iff.mpr (List.mem_map.mpr ⟨stack, topLevel, rfl⟩)
    obtain ⟨row, known⟩ := (lists.rows _).mpr listed
    obtain ⟨other, topLevelToo, sameName, rfl⟩ := lists.own _ row known
    rw [known, injective topLevelToo topLevel sameName]
  · obtain ⟨stack, topLevel, rfl, rfl⟩ := lists.own name row known
    obtain ⟨other, isUsed, rfl⟩ := List.mem_map.mp inRow
    rw [isWaves] at inWave ⊢
    obtain ⟨there, onLevel, sameName⟩ := inWave_map.mp inWave
    have topLevelToo : there ∈ app.tree.topLevelStacks :=
      perm.mem_iff.mp (StackDigraph.mem_flatten_iff.mpr ⟨index, onLevel⟩)
    rw [injective topLevelToo topLevel sameName] at onLevel
    obtain ⟨earlier, before, isEarlier⟩ := behind stack topLevel other isUsed index onLevel
    exact ⟨earlier, before, inWave_map.mpr ⟨other, isEarlier, rfl⟩⟩

end Planned

end DeployPlan

/-! ### The answer of the command -/

/-- A file that is loaded builds a tree as it should be. -/
theorem wellFormed_of_load {system : FileSystem} {definition : String} {app : Application}
    (loaded : load system definition = .ok app) : app.tree.WellFormed := by
  obtain ⟨_, _, parsed⟩ := bind_eq_ok.mp (mapError_eq_ok.mp loaded)
  obtain ⟨_, _, built⟩ := bind_eq_ok.mp parsed
  exact (Definition.accounts_build built).wellFormed

/-- A plan is the same whichever algorithms order the stacks. -/
theorem plannedBy_eq {algorithms : GraphAlgorithms} (lawful : algorithms.Lawful)
    (system : FileSystem) (definition : String) :
    plannedBy system definition algorithms = planned system definition := by
  rw [planned, plannedBy, plannedBy]
  refine bind_eq_bind fun app loaded => ?_
  have wellFormed := wellFormed_of_load loaded
  rw [Application.prepareBy_eq _ wellFormed lawful, ← Application.prepare]
  refine bind_eq_bind fun prepared ready => ?_
  have complete := Prepared.complete_of_prepare wellFormed (mapError_eq_ok.mp ready)
  rw [DeployPlan.ofPrepared, DeployPlan.ofPrepared,
    DeployGraph.wavesBy_eq_of_lawful complete lawful GraphAlgorithms.lawful_plain]

section Asked

variable {system : FileSystem} {arguments : List String} {definition : String} {verbose : Bool}
  (asked : Arguments.ofList arguments = .ok ⟨.graph definition, verbose, true⟩)
include asked

theorem run_of_asked :
    run system arguments = graph system ⟨.graph definition, verbose, true⟩ definition := by
  rw [run, asked]
  rfl

/-- Arguments that ask for the order of deployment as JSON are answered by the plan that is made. -/
theorem run_of_planned {plan : DeployPlan} (done : planned system definition = .ok plan) :
    run system arguments = .success (printed plan.toJson) system := by
  rw [run_of_asked asked, graph, done]
  rfl

theorem run_of_unplanned {failure : Failure} (done : planned system definition = .error failure) :
    run system arguments = .failed failure system := by
  rw [run_of_asked asked, graph, done]

end Asked

/-- A definition file for which the order of deployment is shown has a plan, by whichever algorithms
it is made, and its waves and rows are what is printed. It lists the top-level stacks of the
application by their names, and it reports each of them, with what it uses and behind that, exactly
if no two of them share a name. -/
theorem plan_is_reported (system : FileSystem) (arguments : List String) (definition : String)
    (verbose : Bool) (asked : Arguments.ofList arguments = .ok ⟨.graph definition, verbose, true⟩)
    (succeeded : (run system arguments).code = 0) :
    ∃ (app : Application) (plan : DeployPlan), load system definition = .ok app ∧
      (∀ algorithms : GraphAlgorithms, algorithms.Lawful →
        plannedBy system definition algorithms = .ok plan) ∧
      run system arguments = .success (printed plan.toJson) system ∧
      plan.Written plan.toJson ∧ plan.Lists app.tree ∧
      (plan.Reports app.tree ↔ (app.tree.topLevelStacks.map app.tree.stackName).Nodup) := by
  cases done : planned system definition with
  | error failure =>
    rw [run_of_unplanned asked done] at succeeded
    exact absurd succeeded Nat.one_ne_zero
  | ok plan =>
    have answered := run_of_planned asked done
    have alike : ∀ algorithms : GraphAlgorithms, algorithms.Lawful →
        plannedBy system definition algorithms = .ok plan :=
      fun _ lawful => (plannedBy_eq lawful system definition).trans done
    obtain ⟨app, loaded, done⟩ := bind_eq_ok.mp done
    obtain ⟨prepared, ready, done⟩ := bind_eq_ok.mp done
    rw [mapError_eq_ok] at ready
    have wellFormed := wellFormed_of_load loaded
    have lists := DeployPlan.lists_of_planned wellFormed ready done
    exact ⟨app, plan, loaded, alike, answered, plan.written, lists,
      fun reports => lists.names.nodup_iff.mp reports.once,
      DeployPlan.reports_of_distinct wellFormed ready done⟩

/-! ### A definition on its own -/

/-- A file system with a definition. -/
def drawerOf (definition : Definition) : FileSystem :=
  ⟨.directory [("f", .file definition.toJson.compact.toUTF8)]⟩

/-- The definition is loaded from its file. -/
theorem load_drawer {definition : Definition} (proper : definition.Proper)
    (lacksNull : definition.LacksNull)
    (holds : Json.parse definition.toJson.compact = .ok definition.toJson) :
    Definition.load (drawerOf definition) "f" =
      definition.build ⟨drawerOf definition, (Path.parent? "f").getD "."⟩ := by
  have pieces : Path.pieces "f" = ["f"] := (FileSystem.pieces_letter "f" (by decide)).1
  have found : (drawerOf definition).readFile "f" = .ok definition.toJson.compact.toUTF8 := by
    simp [drawerOf, FileSystem.readFile, FileSystem.find, FileSystem.locate, pieces,
      FileSystem.walk, Entry.at?, Fields.get?, pure, Except.pure, bind, Except.bind]
  have decoded : String.fromUTF8? definition.toJson.compact.toUTF8 =
      some definition.toJson.compact := by
    simp [String.fromUTF8?, String.fromUTF8, String.isValidUTF8]
  have text : Definition.readText (drawerOf definition) "f" = .ok definition.toJson.compact := by
    rw [Definition.readText, found]
    simp only [Except.mapError, bind, Except.bind, decoded]
    rfl
  rw [Definition.load, text]
  simp only [bind, Except.bind, Definition.parse,
    Definition.ofText_of_parse proper lacksNull holds, Except.mapError]

/-- Three stacks, the second of which reads a resource of the first. -/
def trio (second third : String) : Definition :=
  ⟨[⟨"C", .stack ⟨none, .unspecified⟩⟩, ⟨"A", .stack ⟨some second, .unspecified⟩⟩,
    ⟨"A/U", .resource "Bucket" none [("Source", .object [("Ref", .string "C/R")])]⟩,
    ⟨"B", .stack ⟨some third, .unspecified⟩⟩, ⟨"C/R", .resource "Bucket" none []⟩]⟩

theorem load_trio (second third : String) :
    Definition.load (drawerOf (trio second third)) "f" =
      (trio second third).build ⟨drawerOf (trio second third), (Path.parent? "f").getD "."⟩ := by
  refine load_drawer ?_ ?_ (Json.parse_compact ?_ rfl)
  · intro item listed
    simp only [trio, List.mem_cons, List.not_mem_nil, or_false] at listed
    rcases listed with rfl | rfl | rfl | rfl | rfl
    · exact trivial
    · exact trivial
    · refine ⟨by decide, fun property member => ?_⟩
      rw [List.mem_singleton.mp member]
      exact rfl
    · exact trivial
    · exact ⟨by decide, fun _ never => nomatch never⟩
  · intro item listed
    simp only [trio, List.mem_cons, List.not_mem_nil, or_false] at listed
    rcases listed with rfl | rfl | rfl | rfl | rfl <;> exact trivial
  · simp [trio, Definition.toJson, Definition.Item.toJson, Definition.Content.members,
      Json.optionalMember, Environment.toJson, Environment.unspecified, Json.Numberless,
      Json.NumberlessItems, Json.NumberlessMembers]

/-- The application of three stacks and its plan. -/
def trioPlan? (second third : String) : Option (Application × DeployPlan) := do
  let surroundings : Definition.Surroundings :=
    ⟨drawerOf (trio second third), (Path.parent? "f").getD "."⟩
  let app ← ((trio second third).build surroundings).toOption
  let prepared ← (app.prepare surroundings.bundler).toOption
  let plan ← (DeployPlan.ofPrepared app.tree prepared .plain).toOption
  return (app, plan)

/-- The plan is made for the file of the three stacks. -/
theorem planned_trio {second third : String} {app : Application} {plan : DeployPlan}
    (made : trioPlan? second third = some (app, plan)) :
    load (drawerOf (trio second third)) "f" = .ok app ∧
      planned (drawerOf (trio second third)) "f" = .ok plan := by
  obtain ⟨app, built, made⟩ := Option.bind_eq_some_iff.mp made
  obtain ⟨prepared, ready, made⟩ := Option.bind_eq_some_iff.mp made
  obtain ⟨plan, ordered, same⟩ := Option.bind_eq_some_iff.mp made
  cases same
  have loaded : load (drawerOf (trio second third)) "f" = .ok app := by
    rw [load, load_trio, eq_ok_of_toOption built]
    rfl
  refine ⟨loaded, bind_eq_ok.mpr ⟨app, loaded, bind_eq_ok.mpr ⟨prepared, ?_, ?_⟩⟩⟩
  · exact mapError_eq_ok.mpr (eq_ok_of_toOption ready)
  · exact eq_ok_of_toOption ordered

/-- The arguments that ask for the plan of the definition. -/
def graphArguments : List String := ["graph", "f", "--format", "json"]

theorem ofList_graphArguments :
    Arguments.ofList graphArguments = .ok ⟨.graph "f", false, true⟩ := by
  decide +kernel

/-- Three stacks of different names are reported. -/
theorem distinct_trio_is_reported : ∃ (app : Application) (plan : DeployPlan),
    load (drawerOf (trio "A" "B")) "f" = .ok app ∧
      run (drawerOf (trio "A" "B")) graphArguments =
        .success (printed plan.toJson) (drawerOf (trio "A" "B")) ∧
      plan.Reports app.tree := by
  have seen : (trioPlan? "A" "B").map (fun made =>
      made.1.tree.topLevelStacks.map made.1.tree.stackName) = some ["C", "A", "B"] := by
    decide +kernel
  obtain ⟨⟨app, plan⟩, made, names⟩ := Option.map_eq_some_iff.mp seen
  obtain ⟨loaded, done⟩ := planned_trio made
  have answered := run_of_planned ofList_graphArguments done
  obtain ⟨_, _, loadedToo, _, answered, _, _, reported⟩ := plan_is_reported
    (drawerOf (trio "A" "B")) graphArguments "f" false ofList_graphArguments
    (by rw [answered]; rfl)
  cases loaded.symm.trans loadedToo
  exact ⟨app, _, loaded, answered, reported.mpr (names ▸ by decide)⟩

/-- If the second and the third stack share a name, it comes twice and has one row, and that the
second stack uses the first is told nowhere. -/
theorem shared_name_hides_a_stack : ∃ (app : Application) (plan : DeployPlan),
    load (drawerOf (trio "Same" "Same")) "f" = .ok app ∧
      run (drawerOf (trio "Same" "Same")) graphArguments =
        .success (printed plan.toJson) (drawerOf (trio "Same" "Same")) ∧
      plan.waves = [["C", "Same"], ["Same"]] ∧
      plan.dependencies.entries = [("C", []), ("Same", [])] ∧
      app.tree.topLevelStacks.map app.tree.stackName = ["C", "Same", "Same"] ∧
      (app.tree.usedBy 2).map app.tree.stackName = ["C"] ∧ ¬ plan.Reports app.tree := by
  have seen : (trioPlan? "Same" "Same").map (fun made =>
      (made.2.waves, made.2.dependencies.entries,
        made.1.tree.topLevelStacks.map made.1.tree.stackName,
        (made.1.tree.usedBy 2).map made.1.tree.stackName)) =
      some ([["C", "Same"], ["Same"]], [("C", []), ("Same", [])], ["C", "Same", "Same"],
        ["C"]) := by
    decide +kernel
  obtain ⟨⟨app, plan⟩, made, shown⟩ := Option.map_eq_some_iff.mp seen
  obtain ⟨waves, shown⟩ := Prod.mk.inj shown
  obtain ⟨table, shown⟩ := Prod.mk.inj shown
  obtain ⟨names, used⟩ := Prod.mk.inj shown
  obtain ⟨loaded, done⟩ := planned_trio made
  refine ⟨app, plan, loaded, run_of_planned ofList_graphArguments done, waves, table, names, used,
    fun reports => ?_⟩
  exact absurd (waves ▸ reports.once) (by decide)

end CommandLine

end StackSynth
