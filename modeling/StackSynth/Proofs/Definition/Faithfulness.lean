/-
This file proves that building a definition makes what is written down and nothing else: a construct
for each that is listed, where its path says and as it is declared, its values those of its
expressions. Expressions find constructs by the paths under which they were defined, while the tree
knows them by their ids and parents. Building fills both, outputs last; that they agree is shown for
any order and any paths. They differ only if a path begins with a slash, which the first keeps and
the second does not have.
-/

import StackSynth.Proofs.Definition.Placing
import StackSynth.Proofs.Definition.Proper
import StackSynth.Proofs.Definition.Reordering

namespace StackSynth.Definition

open Outcome

/-! ### What is declared -/

/-- A construct as an item declares it, where expressions mean what they do in a scope. -/
inductive Surroundings.Declares (surroundings : Surroundings) (scope : Scope) (item : Item) :
    Construct → Prop where
  | resource {type : String} {attributes : Option (List String)}
    {properties : List (String × Json)} {values : List (String × Deferred)}
    (content : item.content = .resource type attributes properties)
    (evaluates : scope.memberValues item.path properties = .ok values) :
    Declares surroundings scope item (.resource ⟨type, values, attributes⟩)
  | output {expression : Json} {description exported : Option String} {value : Deferred}
    (content : item.content = .output expression description exported)
    (evaluates : scope.value item.path expression = .ok value) :
    Declares surroundings scope item (.output ⟨value, description, exported⟩)
  | other {construct : Construct}
    (noResource : ∀ type attributes properties,
      item.content ≠ .resource type attributes properties)
    (makes : surroundings.Makes item construct) : Declares surroundings scope item construct

/-- A scope is what a definition describes, when a path that is written stands for the construct
with the path `respell path` in the tree. -/
structure Describes (definition : Definition) (surroundings : Surroundings)
    (respell : String → String) (scope : Scope) : Prop where
  root : scope.app.tree.get? Tree.rootId = some ⟨"", none, .root⟩
  size : scope.app.tree.size = definition.constructs.length + 1
  /-- Every construct that is listed has a place. -/
  placed : ∀ item ∈ definition.constructs,
    ∃! node, node < scope.app.tree.size ∧ scope.app.tree.path node = respell item.path
  /-- No two of them share it. -/
  apart : (definition.constructs.map fun item => respell item.path).Nodup
  /-- Nothing else is there. -/
  listed : ∀ node < scope.app.tree.size, node ≠ Tree.rootId →
    ∃ item ∈ definition.constructs, scope.app.tree.path node = respell item.path
  declared : ∀ item ∈ definition.constructs, ∀ node found,
    scope.app.tree.get? node = some found → scope.app.tree.path node = respell item.path →
      surroundings.Declares scope item found.construct
  /-- Expressions refer to constructs by their places. -/
  known : ∀ path node, scope.paths.get? path = some node ↔ path ∈ allPaths definition.constructs ∧
    node < scope.app.tree.size ∧ scope.app.tree.path node = respell path

/-- An application is what a definition describes. -/
def Faithful (definition : Definition) (surroundings : Surroundings) (respell : String → String)
    (app : Application) : Prop :=
  ∃ scope : Scope, scope.app = app ∧ definition.Describes surroundings respell scope

variable {definition : Definition} {surroundings : Surroundings} {app : Application}
  {scope final : Scope} {item : Item} {construct : Construct}

/-! ### Values -/

namespace Scope

theorem names_memberValues {site : String} {members : List (String × Json)} :
    ∀ {values : List (String × Deferred)}, scope.memberValues site members = .ok values →
      Fields.names values = Fields.names members := by
  induction members with
  | nil =>
    intro values done
    cases done
    rfl
  | cons member rest inductionHypothesis =>
    intro values done
    obtain ⟨name, expression⟩ := member
    obtain ⟨value, _, done⟩ := bind_eq_ok.mp done
    obtain ⟨others, doneRest, same⟩ := bind_eq_ok.mp done
    cases same
    exact congrArg (name :: ·) (inductionHypothesis doneRest)

end Scope

theorem assigned_eq {values : List (String × Deferred)} {resource : Resource} :
    assigned values resource = { resource with
      properties := values.foldl (fun fields value => Fields.set value.1 value.2 fields)
        resource.properties } := by
  rw [assigned]
  exact List.foldl_hom (Resource.mk resource.type · resource.attributes) fun _ _ => rfl

/-- Properties of different names are kept in their order. -/
theorem assigned_of_nodup {type : String} {attributes : Option (List String)}
    {values : List (String × Deferred)} (nodup : (Fields.names values).Nodup) :
    assigned values ⟨type, [], attributes⟩ = ⟨type, values, attributes⟩ := by
  rw [assigned_eq]
  exact congrArg (Resource.mk type · attributes) (Fields.ofList_of_nodup nodup)

section Final

variable (enclosed : definition.Enclosed)
  (stage : definition.Stage surroundings definition.constructs final)
include enclosed stage

/-- What expressions see when they are evaluated is there at last, under the same numbers. -/
theorem Stage.shows_final (sees : definition.Sees surroundings scope) :
    scope.Shows (Equiv.refl NodeId) final := by
  obtain ⟨before, after, split, holds⟩ := sees
  refine Scope.Includes.shows ⟨holds, stage.mono fun _ _ _ settles => settles.fits, ?_, ?_, ?_⟩
  · intro item listed
    rw [plainOf_append]
    refine enclosed item ?_
    rcases List.mem_append.mp listed with plain | output
    · exact (mem_plainOf.mp plain).1
    · rw [split]
      exact List.mem_append_left _ (mem_outputsOf.mp output).1
  · intro item listed
    rw [plainOf_append] at listed
    exact List.mem_append_left _ listed
  · intro path _ node knows
    exact (stage.known path node).mpr (getElem?_arranged split ((holds.known path node).mp knows))

/-- A construct that has its values is as it is declared. -/
theorem Stage.declares (proper : item.content.Proper)
    (realizes : surroundings.Realizes (definition.Sees surroundings) item construct) :
    surroundings.Declares final item construct := by
  cases realizes with
  | resource content sees evaluates =>
    rw [content] at proper
    have evaluatesToo := (stage.shows_final enclosed sees).memberValues evaluates
    rw [Deferred.renumberMembers_refl] at evaluatesToo
    rw [assigned_of_nodup (by rw [Scope.names_memberValues evaluates]; exact proper.1)]
    exact .resource content evaluatesToo
  | output content sees evaluates =>
    have evaluatesToo := (stage.shows_final enclosed sees).agrees _ _ _ evaluates
    rw [Deferred.renumber_refl] at evaluatesToo
    exact .output content evaluatesToo
  | other noResource makes => exact .other noResource makes

end Final

/-! ### Places -/

theorem mem_allPaths_arranged {items : List Item} {path : String} :
    path ∈ allPaths (arranged items) ↔ path ∈ allPaths items :=
  ((arranged_perm.map Item.path).cons "").mem_iff

section Places

variable (stage : definition.Stage surroundings definition.constructs final)
include stage

/-- No other construct stands at the place of a path. -/
theorem Stage.eq_of_place {path : String} {node second : NodeId}
    (knows : final.paths.get? path = some node) (within : second < final.app.tree.size)
    (samePath : final.app.tree.path second = unrooted path) : second = node :=
  stage.wellFormed.path_injective within (stage.lt_of_known knows)
    (samePath.trans (stage.path_of_known knows).symm)

/-- A path is known for the construct that stands at its place. -/
theorem Stage.known_iff {path : String} {node : NodeId} :
    final.paths.get? path = some node ↔ path ∈ allPaths definition.constructs ∧
      node < final.app.tree.size ∧ final.app.tree.path node = unrooted path := by
  constructor
  · intro knows
    exact ⟨mem_allPaths_arranged.mp (stage.mem_allPaths_of_known knows),
      stage.lt_of_known knows, stage.path_of_known knows⟩
  · rintro ⟨member, within, samePath⟩
    obtain ⟨second, knows⟩ := stage.exists_node (mem_allPaths_arranged.mpr member)
    rwa [stage.eq_of_place knows within samePath]

/-- No two constructs are listed for one place. -/
theorem Stage.apart :
    (definition.constructs.map fun item => unrooted item.path).Nodup := by
  have arranges : ∀ {item}, item ∈ definition.constructs →
      item ∈ arranged definition.constructs := arranged_perm.mem_iff.mpr
  refine List.Nodup.map_on ?_ (arranged_perm.nodup_iff.mp stage.nodup_items)
  intro item listed other listedToo samePath
  obtain ⟨node, knows⟩ := stage.known_item (arranges listed)
  obtain ⟨second, knowsToo⟩ := stage.known_item (arranges listedToo)
  rw [stage.eq_of_place knows (stage.lt_of_known knowsToo)
    ((stage.path_of_known knowsToo).trans samePath.symm)] at knowsToo
  exact stage.eq_of_path (arranges listed) (arranges listedToo)
    (stage.path_unique knows knowsToo)

end Places

/-- What is built is what the definition describes, a slash at the beginning of a path apart. -/
theorem describes_build (proper : definition.Proper)
    (built : definition.build surroundings = .ok app) :
    ∃ scope : Scope, scope.app = app ∧ scope.app.tree.WellFormed ∧
      definition.Describes surroundings unrooted scope := by
  obtain ⟨scope, rfl, enclosed, stage⟩ := stage_build built
  have arranges : ∀ {item}, item ∈ definition.constructs →
      item ∈ arranged definition.constructs := arranged_perm.mem_iff.mpr
  refine ⟨scope, rfl, stage.wellFormed, ?_⟩
  constructor
  case root => exact stage.wellFormed.root
  case size =>
    rw [stage.size, allPaths, List.length_cons, List.length_map, arranged_perm.length_eq]
  case placed =>
    intro item listed
    obtain ⟨node, knows⟩ := stage.known_item (arranges listed)
    refine ⟨node, ⟨stage.lt_of_known knows, stage.path_of_known knows⟩, ?_⟩
    rintro second ⟨within, samePath⟩
    exact stage.eq_of_place knows within samePath
  case apart => exact stage.apart
  case listed =>
    intro node within notRoot
    obtain ⟨path, knows⟩ := stage.exists_path within
    rcases mem_allPaths.mp (stage.mem_allPaths_of_known knows) with rfl | ⟨item, listed, rfl⟩
    · rw [stage.known_root] at knows
      exact absurd (Option.some.inj knows).symm notRoot
    · exact ⟨item, arranged_perm.mem_iff.mp listed, stage.path_of_known knows⟩
  case declared =>
    intro item listed node found place samePath
    obtain ⟨second, knows⟩ := stage.known_item (arranges listed)
    rw [stage.eq_of_place knows (Tree.lt_of_get? place) samePath] at place
    obtain ⟨_, construct, _, settles, placeToo⟩ :=
      stage.placed item (arranges listed) second knows
    rw [place] at placeToo
    cases placeToo
    exact stage.declares enclosed (proper item listed) (settles.1 listed)
  case known => exact fun _ _ => stage.known_iff

/-! ### Slashes at the beginning -/

/-- It only matters how the paths that are listed are respelled. -/
theorem Describes.congr {respell other : String → String}
    (describes : definition.Describes surroundings respell scope)
    (same : ∀ path ∈ allPaths definition.constructs, respell path = other path) :
    definition.Describes surroundings other scope := by
  have sameItem : ∀ item ∈ definition.constructs, respell item.path = other item.path :=
    fun item listed => same item.path (mem_allPaths.mpr (.inr ⟨item, listed, rfl⟩))
  constructor
  case root => exact describes.root
  case size => exact describes.size
  case placed =>
    intro item listed
    rw [← sameItem item listed]
    exact describes.placed item listed
  case apart =>
    rw [← List.map_congr_left sameItem]
    exact describes.apart
  case listed =>
    intro node within notRoot
    obtain ⟨item, listed, path⟩ := describes.listed node within notRoot
    exact ⟨item, listed, path.trans (sameItem item listed)⟩
  case declared =>
    intro item listed node found place path
    exact describes.declared item listed node found place (path.trans (sameItem item listed).symm)
  case known =>
    intro path node
    rw [describes.known]
    refine and_congr_right fun member => ?_
    rw [same path member]

/-- An application is built as the definition says, but a slash at the beginning of a path is
forgotten; so it is faithful to the letter exactly if no path begins with one. -/
theorem build_forgets_slashes_only (proper : definition.Proper)
    (built : definition.build surroundings = .ok app) :
    definition.Faithful surroundings unrooted app ∧
      (definition.Faithful surroundings id app ↔
        ∀ item ∈ definition.constructs, ¬IsRooted item.path) := by
  obtain ⟨scope, rfl, wellFormed, describes⟩ := describes_build proper built
  refine ⟨⟨scope, rfl, describes⟩, ?_, ?_⟩
  · rintro ⟨other, sameApp, faithful⟩ item listed
    obtain ⟨node, ⟨_, path⟩, _⟩ := faithful.placed item listed
    rw [sameApp, id] at path
    rw [← path]
    exact not_isRooted_path wellFormed node
  · intro noneRooted
    refine ⟨scope, rfl, describes.congr fun path member => ?_⟩
    rcases mem_allPaths.mp member with rfl | ⟨item, listed, rfl⟩
    · rfl
    · exact unrooted_of_not_isRooted (noneRooted item listed)

/-- A stack with an output, a parameter, and a resource that comes before what it refers to. -/
def forward : Definition :=
  ⟨[⟨"S", .stack ⟨none, .unspecified⟩⟩, ⟨"S/O", .output (.string "1") none none⟩,
    ⟨"S/R", .resource "Custom::R" none
      [("of", .object [("Ref", .string "S/P")]), ("at", .object [("StackName", .string "S")])]⟩,
    ⟨"S/P", .parameter ⟨defaultParameterType, none, none⟩⟩]⟩

theorem proper_forward : forward.Proper := by
  intro item listed
  simp only [forward, List.mem_cons, List.not_mem_nil, or_false] at listed
  rcases listed with rfl | rfl | rfl | rfl
  · exact trivial
  · exact rfl
  · refine ⟨by decide, fun property member => ?_⟩
    simp only [List.mem_cons, List.not_mem_nil, or_false] at member
    rcases member with rfl | rfl <;> exact rfl
  · exact fun _ never => nomatch never

theorem forward_is_built_faithfully : ∃ app, forward.build ⟨⟨.directory []⟩, ""⟩ = .ok app ∧
    forward.Faithful ⟨⟨.directory []⟩, ""⟩ id app := by
  obtain ⟨app, built⟩ : ∃ app, forward.build ⟨⟨.directory []⟩, ""⟩ = .ok app :=
    exists_of_isOk (by decide +kernel)
  have noneRooted : ∀ item ∈ forward.constructs, ¬IsRooted item.path := by decide
  exact ⟨app, built, (build_forgets_slashes_only proper_forward built).2.mpr noneRooted⟩

/-- A stack under a path that begins with a slash, and constructs in it. -/
def slashed : Definition :=
  ⟨[⟨"/S", .stack ⟨none, .unspecified⟩⟩,
    ⟨"/S/P", .parameter ⟨defaultParameterType, none, none⟩⟩,
    ⟨"/S/R", .resource "Custom::R" none [("of", .object [("Ref", .string "/S/P")])]⟩]⟩

/-- It is built, but at none of the paths that it lists does a construct stand. -/
theorem slashed_is_built_elsewhere : ∃ app, slashed.build ⟨⟨.directory []⟩, ""⟩ = .ok app ∧
    app.tree.path 1 = "S" ∧
    (∀ item ∈ slashed.constructs, ∀ node, app.tree.path node ≠ item.path) ∧
    ¬slashed.Faithful ⟨⟨.directory []⟩, ""⟩ id app := by
  have works : (slashed.build ⟨⟨.directory []⟩, ""⟩).toOption.map
      (fun app => app.tree.path 1) = some "S" := by decide +kernel
  obtain ⟨app, built, atStack⟩ := exists_of_map_toOption works
  obtain ⟨scope, rfl, _, stage⟩ := stage_build built
  have elsewhere : ∀ item ∈ slashed.constructs, ∀ node,
      scope.app.tree.path node ≠ item.path := by
    intro item listed node samePath
    have rooted : ∀ item ∈ slashed.constructs, IsRooted item.path := by decide
    exact not_isRooted_path stage.wellFormed node (samePath ▸ rooted item listed)
  refine ⟨scope.app, built, atStack, elsewhere, ?_⟩
  rintro ⟨other, sameApp, faithful⟩
  obtain ⟨node, ⟨_, samePath⟩, _⟩ := faithful.placed _ List.mem_cons_self
  rw [sameApp] at samePath
  exact elsewhere _ List.mem_cons_self node samePath

end StackSynth.Definition
