/-
This file says what the second round of building a definition makes: resources with their
properties, and outputs behind all else. Every value is taken from a scope that has all but some
outputs, and as nothing refers to outputs it does not matter which of them it has.
-/

import StackSynth.Proofs.Definition.Declaring

namespace StackSynth

open Outcome

namespace Tree

variable {tree next : Tree} {node : NodeId} {found : Node}

/-- A tree becomes another one with a certain construct in one place and all else as it was. -/
structure Refits (node : NodeId) (found : Node) (tree next : Tree) : Prop where
  wellFormed : next.WellFormed
  size : next.size = tree.size
  here : next.get? node = some found
  elsewhere : ∀ other, other ≠ node → next.get? other = tree.get? other

theorem refits_replace {id : String} {parent : Option NodeId} {first second : Resource}
    (wellFormed : tree.WellFormed) (place : tree.get? node = some ⟨id, parent, .resource first⟩) :
    tree.Refits node ⟨id, parent, .resource second⟩ (tree.replace node (.resource second)) where
  wellFormed := wellFormed.replace place rfl
  size := Array.size_modify
  here := by
    rw [get?_replace, place, Option.map_some, if_pos rfl]
  elsewhere other apart := by
    rw [get?_replace]
    cases tree.get? other with
    | none => rfl
    | some old => rw [Option.map_some, if_neg (Ne.symm apart)]

theorem Refits.trans {last : Tree} {between : Node} (first : tree.Refits node between next)
    (second : next.Refits node found last) : tree.Refits node found last where
  wellFormed := second.wellFormed
  size := second.size.trans first.size
  here := second.here
  elsewhere other apart := (second.elsewhere other apart).trans (first.elsewhere other apart)

end Tree

namespace Definition

variable {surroundings : Surroundings} {app next : Application} {scope grown : Scope}
  {around node : NodeId} {id : String} {item other : Item} {items before after : List Item}
  {construct : Construct} {definition : Definition}

/-! ### Properties -/

/-- The properties that a resource has after assignments. -/
def assigned (properties : List (String × Deferred)) (resource : Resource) : Resource :=
  properties.foldl (fun resource property => resource.setProperty property.1 property.2) resource

/-- Resources can be given any properties, one by one. -/
theorem exists_assign {parent : Option NodeId} (properties : List (String × Deferred)) :
    ∀ (app : Application) {resource : Resource}, app.tree.WellFormed →
      app.tree.get? node = some ⟨id, parent, .resource resource⟩ →
      ∃ next, assign app node properties = .ok next ∧
        app.tree.Refits node ⟨id, parent, .resource (assigned properties resource)⟩ next.tree := by
  induction properties with
  | nil => exact fun app _ wellFormed place => ⟨app, rfl, wellFormed, rfl, place, fun _ _ => rfl⟩
  | cons property rest inductionHypothesis =>
    intro app resource wellFormed place
    obtain ⟨name, value⟩ := property
    have changed : app.setProperty node name value = .ok { app with
        tree := app.tree.replace node (.resource (resource.setProperty name value)) } :=
      bind_eq_ok.mpr ⟨_, Tree.find_eq_ok.mpr place, rfl⟩
    have refits : app.tree.Refits node ⟨id, parent, .resource (resource.setProperty name value)⟩
        (app.tree.replace node (.resource (resource.setProperty name value))) :=
      Tree.refits_replace wellFormed place
    obtain ⟨next, done, further⟩ := inductionHypothesis { app with
      tree := app.tree.replace node (.resource (resource.setProperty name value)) }
      refits.wellFormed refits.here
    refine ⟨next, ?_, refits.trans further⟩
    rw [assign, List.foldlM_cons]
    exact bind_eq_ok.mpr ⟨_, changed, done⟩

/-- A scope still holds its constructs when one of them has changed. -/
theorem Scope.Holds.refit {shape settled : Item → Construct → Prop}
    (holds : scope.Holds shape items) (listed : item ∈ items)
    (knows : scope.paths.get? item.path = some node)
    (atScope : scope.paths.get? item.scope = some around)
    (paths : grown.paths = scope.paths)
    (refits : scope.app.tree.Refits node ⟨item.id, some around, construct⟩ grown.app.tree)
    (shaped : settled item construct)
    (others : ∀ other ∈ items, other ≠ item → ∀ construct, shape other construct →
      settled other construct) : grown.Holds settled items where
  wellFormed := refits.wellFormed
  size := refits.size.trans holds.size
  known := by
    rw [paths]
    exact holds.known
  placed := by
    intro other member nodeToo knowsToo
    rw [paths] at knowsToo ⊢
    by_cases same : other = item
    · subst same
      rw [knows] at knowsToo
      cases knowsToo
      exact ⟨around, construct, atScope, shaped, refits.here⟩
    · obtain ⟨aroundToo, found, atScopeToo, shapedToo, place⟩ :=
        holds.placed other member nodeToo knowsToo
      refine ⟨aroundToo, found, atScopeToo, others other member same found shapedToo, ?_⟩
      rw [refits.elsewhere nodeToo, place]
      rintro rfl
      exact same (holds.eq_of_path member listed (holds.path_unique knowsToo knows))

/-! ### What the second round makes -/

/-- The outputs. -/
def outputsOf (items : List Item) : List Item := items.filter Item.isOutput

theorem mem_outputsOf : item ∈ outputsOf items ↔ item ∈ items ∧ item.isOutput = true :=
  List.mem_filter

/-- A scope from the second round: it holds all constructs but some outputs. -/
def Sees (definition : Definition) (surroundings : Surroundings) (scope : Scope) : Prop :=
  ∃ before after, definition.constructs = before ++ after ∧
    scope.Holds surroundings.Fits (plainOf definition.constructs ++ outputsOf before)

/-- The construct is what the second round makes of the item, with values that some scope gives. -/
inductive Surroundings.Realizes (surroundings : Surroundings) (seen : Scope → Prop) (item : Item) :
    Construct → Prop where
  | resource {scope : Scope} {type : String} {attributes : Option (List String)}
    {properties : List (String × Json)} {values : List (String × Deferred)}
    (content : item.content = .resource type attributes properties) (sees : seen scope)
    (evaluates : scope.memberValues item.path properties = .ok values) :
    Realizes surroundings seen item (.resource (assigned values ⟨type, [], attributes⟩))
  | output {scope : Scope} {expression : Json} {description exported : Option String}
    {value : Deferred} (content : item.content = .output expression description exported)
    (sees : seen scope) (evaluates : scope.value item.path expression = .ok value) :
    Realizes surroundings seen item (.output ⟨value, description, exported⟩)
  | other {construct : Construct}
    (noResource : ∀ type attributes properties,
      item.content ≠ .resource type attributes properties)
    (makes : surroundings.Makes item construct) : Realizes surroundings seen item construct

theorem face_assigned {properties : List (String × Deferred)} {resource : Resource} :
    (Construct.resource (assigned properties resource)).face =
      (Construct.resource resource).face :=
  List.foldlRecOn properties (motive := fun current =>
    (Construct.resource current).face = (Construct.resource resource).face) _ rfl
    fun _ unchanged _ _ => unchanged

theorem Surroundings.Realizes.fits {seen : Scope → Prop}
    (realizes : surroundings.Realizes seen item construct) : surroundings.Fits item construct := by
  cases realizes with
  | resource content sees evaluates => exact .made (by rw [content]; rfl) face_assigned
  | output content sees evaluates => exact .output _ (by rw [Item.isOutput, content])
  | other noResource makes => exact makes.fits

/-- A construct has its values exactly if it is done. -/
def Surroundings.Settles (surroundings : Surroundings) (seen : Scope → Prop) (done : List Item)
    (item : Item) (construct : Construct) : Prop :=
  (item ∈ done → surroundings.Realizes seen item construct) ∧
    (item ∉ done → surroundings.Makes item construct)

theorem Surroundings.Settles.fits {seen : Scope → Prop} {done : List Item}
    (settles : surroundings.Settles seen done item construct) :
    surroundings.Fits item construct := by
  by_cases isDone : item ∈ done
  · exact (settles.1 isDone).fits
  · exact (settles.2 isDone).fits

theorem Surroundings.Settles.mono {seen : Scope → Prop} {done : List Item}
    (settles : surroundings.Settles seen done other construct)
    (unchanged : other = item → other ∈ done) :
    surroundings.Settles seen (done ++ [item]) other construct := by
  have iff : other ∈ done ++ [item] ↔ other ∈ done := by
    rw [List.mem_append, List.mem_singleton]
    exact or_iff_left_of_imp unchanged
  rwa [Settles, iff]

/-- No construct but an output comes a second time. -/
theorem not_mem_before (nodup : (plainOf definition.constructs).Nodup)
    (split : definition.constructs = before ++ item :: after) (plain : item.isOutput = false) :
    item ∉ before := by
  intro member
  rw [split, plainOf, List.filter_append, List.filter_cons_of_pos (by rw [plain]; rfl)] at nodup
  exact (List.nodup_append.mp nodup).2.2 item (mem_plainOf.mpr ⟨member, plain⟩) item
    List.mem_cons_self rfl

/-! ### The second round -/

/-- A scope from the second round, when some constructs are done. -/
abbrev Stage (definition : Definition) (surroundings : Surroundings) (done : List Item)
    (scope : Scope) : Prop :=
  scope.Holds (surroundings.Settles (definition.Sees surroundings) done)
    (plainOf definition.constructs ++ outputsOf done)

/-- What the second round needs of the scope in which it gives a construct its values. -/
def Scope.Evaluates (scope : Scope) (item : Item) : Prop :=
  match item.content with
  | .resource _ _ properties => ∃ values, scope.memberValues item.path properties = .ok values
  | .output expression _ _ => ∃ value, scope.value item.path expression = .ok value
  | _ => True

theorem Stage.sees (stage : definition.Stage surroundings before scope)
    (split : definition.constructs = before ++ after) : definition.Sees surroundings scope :=
  ⟨before, after, split, stage.mono fun _ _ _ settles => settles.fits⟩

theorem outputsOf_append_plain (plain : item.isOutput = false) :
    outputsOf (items ++ [item]) = outputsOf items := by
  rw [outputsOf, outputsOf, List.filter_append,
    List.filter_cons_of_neg (by rw [plain]; exact Bool.false_ne_true), List.filter_nil,
    List.append_nil]

theorem outputsOf_append_output (isOutput : item.isOutput = true) :
    outputsOf (items ++ [item]) = outputsOf items ++ [item] := by
  rw [outputsOf, outputsOf, List.filter_append, List.filter_cons_of_pos isOutput, List.filter_nil]

theorem Stage.nodup_plain (stage : definition.Stage surroundings before scope) :
    (plainOf definition.constructs).Nodup :=
  (List.nodup_append.mp stage.nodup_items).1

theorem mem_plainOf_of_split (split : definition.constructs = before ++ item :: after)
    (plain : item.isOutput = false) : item ∈ plainOf definition.constructs := by
  refine mem_plainOf.mpr ⟨?_, plain⟩
  rw [split]
  exact List.mem_append_right _ List.mem_cons_self

section Turn

variable (stage : definition.Stage surroundings before scope)
  (split : definition.constructs = before ++ item :: after)
include stage split

/-- A resource stands where its path leads, without properties as long as it is not done. -/
theorem Stage.bare {type : String} {attributes : Option (List String)}
    {properties : List (String × Json)}
    (content : item.content = .resource type attributes properties) : ∃ node around,
      scope.paths.get? item.path = some node ∧ scope.paths.get? item.scope = some around ∧
        scope.app.tree.get? node =
          some ⟨item.id, some around, .resource ⟨type, [], attributes⟩⟩ := by
  have plain : item.isOutput = false := by rw [Item.isOutput, content]
  have listed := List.mem_append_left (outputsOf before) (mem_plainOf_of_split split plain)
  obtain ⟨node, knows⟩ := stage.known_item listed
  obtain ⟨around, construct, atScope, settles, place⟩ := stage.placed item listed node knows
  have makes := settles.2 (not_mem_before stage.nodup_plain split plain)
  rw [Surroundings.Makes, content] at makes
  cases makes
  exact ⟨node, around, knows, atScope, place⟩

/-- What completing a resource comes to. -/
theorem Stage.complete_resource {type : String} {attributes : Option (List String)}
    {properties : List (String × Json)} {values : List (String × Deferred)}
    (content : item.content = .resource type attributes properties)
    (evaluates : scope.memberValues item.path properties = .ok values) :
    ∃ grown, complete scope item = .ok grown ∧
      definition.Stage surroundings (before ++ [item]) grown := by
  have plain : item.isOutput = false := by rw [Item.isOutput, content]
  obtain ⟨node, around, knows, atScope, place⟩ := stage.bare split content
  obtain ⟨next, done, refits⟩ := exists_assign values scope.app stage.wellFormed place
  have realizes : surroundings.Realizes (definition.Sees surroundings) item
      (.resource (assigned values ⟨type, [], attributes⟩)) :=
    .resource content (stage.sees split) evaluates
  refine ⟨{ scope with app := next }, ?_, ?_⟩
  · rw [complete, content]
    exact bind_eq_ok.mpr ⟨node, Scope.find_eq_ok.mpr knows, bind_eq_ok.mpr ⟨values, evaluates,
      bind_eq_ok.mpr ⟨next, mapError_eq_ok.mpr done, rfl⟩⟩⟩
  · rw [Stage, outputsOf_append_plain plain]
    have listed := List.mem_append_left (outputsOf before) (mem_plainOf_of_split split plain)
    refine stage.refit listed knows atScope rfl refits
      ⟨fun _ => realizes, fun never => ?_⟩ fun other _ apart _ settles =>
        settles.mono fun same => absurd same apart
    exact absurd (List.mem_append_right _ List.mem_cons_self) never

/-- Adding what an output is leads to the next stage. -/
theorem Stage.grow_output {expression : Json} {description exported : Option String}
    {value : Deferred} (content : item.content = .output expression description exported)
    (evaluates : scope.value item.path expression = .ok value)
    (atScope : scope.paths.get? item.scope = some around)
    (admits : scope.app.tree.Admits around item.id (.output ⟨value, description, exported⟩))
    (tree : grown.app.tree =
      scope.app.tree.withNew around item.id (.output ⟨value, description, exported⟩))
    (paths : grown.paths = scope.paths.insert item.path scope.app.tree.size) :
    definition.Stage surroundings (before ++ [item]) grown := by
  have isOutput : item.isOutput = true := by rw [Item.isOutput, content]
  have kept : scope.Holds (surroundings.Settles (definition.Sees surroundings) (before ++ [item]))
      (plainOf definition.constructs ++ outputsOf before) := by
    refine stage.mono fun other listed _ settles => settles.mono ?_
    rintro rfl
    rcases List.mem_append.mp listed with plain | output
    · exact absurd ((mem_plainOf.mp plain).2.symm.trans isOutput) Bool.noConfusion
    · exact (mem_outputsOf.mp output).1
  rw [Stage, outputsOf_append_output isOutput, ← List.append_assoc]
  refine kept.grow atScope admits ⟨fun _ => .output content (stage.sees split) evaluates,
    fun never => ?_⟩ tree paths
  exact absurd (List.mem_append_right _ List.mem_cons_self) never

/-- What has no values is done as it is. -/
theorem Stage.settled (plain : item.isOutput = false)
    (noResource : ∀ type attributes properties,
      item.content ≠ .resource type attributes properties) :
    definition.Stage surroundings (before ++ [item]) scope := by
  rw [Stage, outputsOf_append_plain plain]
  refine stage.mono fun other _ construct settles => ?_
  by_cases same : other = item
  · subst same
    have makes := settles.2 (not_mem_before stage.nodup_plain split plain)
    refine ⟨fun _ => .other noResource makes, fun never => ?_⟩
    exact absurd (List.mem_append_right _ List.mem_cons_self) never
  · exact settles.mono fun itself => absurd itself same

/-- One turn of the second round leads to the next stage. -/
theorem Stage.complete (completed : complete scope item = .ok grown) :
    definition.Stage surroundings (before ++ [item]) grown := by
  cases content : item.content with
  | resource type attributes properties =>
    have turn := completed
    rw [Definition.complete, content] at turn
    obtain ⟨_, _, turn⟩ := bind_eq_ok.mp turn
    obtain ⟨values, evaluates, _⟩ := bind_eq_ok.mp turn
    obtain ⟨next, done, stageNext⟩ := stage.complete_resource split content evaluates
    rw [completed] at done
    cases done
    exact stageNext
  | output expression description exported =>
    rw [Definition.complete, content] at completed
    obtain ⟨⟨around, id⟩, located, completed⟩ := bind_eq_ok.mp completed
    obtain ⟨_, atScope, rfl⟩ := Scope.locate_eq_ok.mp located
    obtain ⟨value, evaluates, completed⟩ := bind_eq_ok.mp completed
    obtain ⟨⟨node, app⟩, added, same⟩ := bind_eq_ok.mp completed
    cases same
    obtain ⟨admits, rfl, tree⟩ := Application.adds_addOutput.admits (mapError_eq_ok.mp added)
    exact stage.grow_output split content evaluates atScope admits tree rfl
  | _ =>
    rw [Definition.complete, content] at completed
    cases completed
    refine stage.settled split (by rw [Item.isOutput, content]) fun _ _ _ same => ?_
    rw [content] at same
    cases same

/-- A turn of the second round can be made where values can be given and outputs be added. -/
theorem Stage.exists_complete (evaluates : scope.Evaluates item)
    (admits : item.isOutput = true → ∃ around, scope.paths.get? item.scope = some around ∧
      ∀ spec, scope.app.tree.Admits around item.id (.output spec)) :
    ∃ grown, Definition.complete scope item = .ok grown := by
  cases content : item.content with
  | resource type attributes properties =>
    rw [Scope.Evaluates, content] at evaluates
    obtain ⟨values, evaluates⟩ := evaluates
    obtain ⟨next, done, _⟩ := stage.complete_resource split content evaluates
    exact ⟨next, done⟩
  | output expression description exported =>
    rw [Scope.Evaluates, content] at evaluates
    obtain ⟨value, evaluates⟩ := evaluates
    obtain ⟨around, atScope, admits⟩ := admits (by rw [Item.isOutput, content])
    obtain ⟨added, done⟩ :=
      Application.adds_addOutput.adds (admits ⟨value, description, exported⟩)
    rw [Definition.complete, content]
    refine exists_bind_eq_ok.mpr ⟨(around, item.id),
      Scope.locate_eq_ok.mpr ⟨(admits ⟨value, description, exported⟩).notEmpty, atScope, rfl⟩,
      exists_bind_eq_ok.mpr ⟨value, evaluates, exists_bind_eq_ok.mpr ⟨added, ?_, _, rfl⟩⟩⟩
    exact mapError_eq_ok.mpr done
  | _ =>
    rw [Definition.complete, content]
    exact ⟨scope, rfl⟩

end Turn

/-- The second round begins with what the first round has made. -/
theorem stage_of_holds
    (holds : scope.Holds surroundings.Makes (plainOf definition.constructs)) :
    definition.Stage surroundings [] scope := by
  rw [Stage, outputsOf, List.filter_nil, List.append_nil]
  exact holds.mono fun _ _ _ makes => ⟨fun never => (nomatch never), fun _ => makes⟩

/-- What is built holds every construct, with the values that the second round gives it, and all
stands in what the first round makes. -/
theorem stage_build (built : definition.build surroundings = .ok app) :
    ∃ scope, scope.app = app ∧ definition.Enclosed ∧
      definition.Stage surroundings definition.constructs scope := by
  obtain ⟨declared, firstRound, built⟩ := bind_eq_ok.mp built
  obtain ⟨completed, secondRound, same⟩ := bind_eq_ok.mp built
  obtain ⟨holds, enclosed⟩ := holds_firstRound firstRound
  refine ⟨completed, pure_eq_ok.mp same, enclosed, ?_⟩
  refine foldlM_invariant (definition.Stage surroundings) ?_ (stage_of_holds holds) secondRound
  intro before item after scope grown split stage turn
  exact stage.complete split turn

end Definition

end StackSynth
