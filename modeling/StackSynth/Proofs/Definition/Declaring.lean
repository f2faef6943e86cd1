/-
This file says what the first round of building a definition makes: constructs of all that is
written down but for outputs, in the order in which it is written. A construct is declared exactly
if its scope is there and the tree admits what is made of it; of outputs only the scope is looked
for, so that nothing comes to stand in one.
-/

import StackSynth.Proofs.Construct.StackChain
import StackSynth.Proofs.Definition.Inclusion

namespace StackSynth.Definition

open Outcome

variable {surroundings : Surroundings} {app next : Application} {scope grown : Scope}
  {around node : NodeId} {id : String} {item : Item} {items : List Item} {construct : Construct}

/-! ### Creating a construct -/

theorem exists_create? (app : Application) (surroundings : Surroundings) (around : NodeId)
    (id : String) (plain : item.isOutput = false) :
    ∃ created, create? app surroundings around id item.content = some created := by
  rw [Item.isOutput] at plain
  split at plain
  · cases plain
  · rename_i noOutput
    cases content : item.content with
    | output value description exported =>
      exact absurd content (noOutput value description exported)
    | _ => exact ⟨_, rfl⟩

theorem create?_of_isOutput (isOutput : item.isOutput = true) :
    create? app surroundings around id item.content = none := by
  rw [Item.isOutput] at isOutput
  split at isOutput
  · rename_i content
    rw [content]
    rfl
  · cases isOutput

/-- An asset whose content can be identified is added like any other construct. -/
theorem adds_addAsset {source : Asset.Source} {hash : ContentHash}
    (wellFormed : app.tree.WellFormed) (hashed : surroundings.bundler source = .ok hash) :
    app.Adds around id (.asset hash source.packaging)
      (addAsset app surroundings around id source) where
  admits added := by
    obtain ⟨⟨handle, grown⟩, added, same⟩ := bind_eq_ok.mp added
    cases same
    obtain ⟨_, _, again, belongs, _, hashedAgain, grew, _⟩ := Application.addAsset_eq_ok added
    rw [hashed] at hashedAgain
    cases hashedAgain
    exact Tree.admits_of_add (Tree.mayStand_of_stackOf? belongs nofun) grew
  adds admits := by
    obtain ⟨stack, belongs, required⟩ := Application.requireStack_of_admits admits rfl "asset"
    obtain ⟨top, outermost⟩ := wellFormed.exists_topLevelOf? (Tree.isStack_of_stackOf? belongs)
    have registered : ∃ added, app.addAsset surroundings.bundler around id source = .ok added := by
      refine exists_bind_eq_ok.mpr ⟨stack, required, ?_⟩
      rw [outermost]
      exact exists_bind_eq_ok.mpr ⟨hash, mapError_eq_ok.mpr hashed,
        exists_bind_eq_ok.mpr ⟨_, Application.addConstruct_of_admits admits, _, rfl⟩⟩
    obtain ⟨added, done⟩ := registered
    exact exists_bind_eq_ok.mpr ⟨added, done, _, rfl⟩

/-- A construct can be created exactly if the tree admits what is made of it. -/
theorem adds_of_create? {content : Content}
    {created : Except ConstructError (NodeId × Application)} (wellFormed : app.tree.WellFormed)
    (creates : create? app surroundings around id content = some created)
    (makes : surroundings.made? content = some construct) :
    app.Adds around id construct created := by
  have ofAsset : ∀ {source}, surroundings.asset? source = some construct →
      app.Adds around id construct (addAsset app surroundings around id source) := by
    intro source makes
    obtain ⟨hash, hashed, rfl⟩ := Option.map_eq_some_iff.mp makes
    exact adds_addAsset wellFormed (eq_ok_of_toOption hashed)
  cases content with
  | group =>
    cases creates
    cases makes
    exact Application.adds_addGroup
  | stack options =>
    cases creates
    cases makes
    exact Application.adds_addStack
  | nestedStack =>
    cases creates
    cases makes
    exact Application.adds_addNestedStack
  | resource type attributes properties =>
    cases creates
    cases makes
    exact Application.adds_addResource
  | parameter declaration =>
    cases creates
    cases makes
    exact Application.adds_addParameter
  | output value description exported => cases creates
  | fileAsset source exclude =>
    cases creates
    exact ofAsset makes
  | imageAsset image =>
    cases creates
    exact ofAsset makes

theorem exists_made?_of_create? {content : Content} {added : NodeId × Application}
    (creates : create? app surroundings around id content = some (.ok added)) :
    ∃ construct, surroundings.made? content = some construct := by
  have ofAsset : ∀ {source}, addAsset app surroundings around id source = .ok added →
      ∃ construct, surroundings.asset? source = some construct := by
    intro source done
    obtain ⟨_, done, _⟩ := bind_eq_ok.mp done
    obtain ⟨_, _, hash, _, _, hashed, _, _⟩ := Application.addAsset_eq_ok done
    refine ⟨_, Option.map_eq_some_iff.mpr ⟨hash, ?_, rfl⟩⟩
    rw [hashed]
    rfl
  cases content with
  | output value description exported => cases creates
  | fileAsset source exclude => exact ofAsset (Option.some.inj creates)
  | imageAsset image => exact ofAsset (Option.some.inj creates)
  | _ => exact ⟨_, rfl⟩

/-! ### The first round -/

/-- The construct is what the first round makes of the item. -/
def Surroundings.Makes (surroundings : Surroundings) (item : Item) (construct : Construct) : Prop :=
  surroundings.made? item.content = some construct

theorem Surroundings.Makes.fits (makes : surroundings.Makes item construct) :
    surroundings.Fits item construct :=
  .made makes rfl

theorem Surroundings.Makes.isOutput (makes : surroundings.Makes item construct) :
    item.isOutput = false :=
  makes.fits.isOutput.symm.trans (isOutput_of_made? makes)

/-- What the declaration of a construct does to a scope. -/
theorem declare_plain (wellFormed : scope.app.tree.WellFormed) (plain : item.isOutput = false)
    (declared : declare surroundings scope item = .ok grown) : ∃ around construct,
      scope.paths.get? item.scope = some around ∧ surroundings.Makes item construct ∧
        scope.app.tree.Admits around item.id construct ∧
        grown.app.tree = scope.app.tree.withNew around item.id construct ∧
        grown.paths = scope.paths.insert item.path scope.app.tree.size := by
  obtain ⟨⟨around, id⟩, located, declared⟩ := bind_eq_ok.mp declared
  obtain ⟨_, atScope, rfl⟩ := Scope.locate_eq_ok.mp located
  obtain ⟨created, creates⟩ := exists_create? scope.app surroundings around item.id plain
  dsimp only at declared
  rw [creates] at declared
  obtain ⟨⟨node, app⟩, done, same⟩ := bind_eq_ok.mp declared
  cases same
  have done := mapError_eq_ok.mp done
  obtain ⟨construct, makes⟩ := exists_made?_of_create? (done ▸ creates)
  obtain ⟨admits, rfl, tree⟩ := (adds_of_create? wellFormed creates makes).admits done
  exact ⟨around, construct, atScope, makes, admits, tree, rfl⟩

/-- What can be made, and is admitted where its scope is, can be declared. -/
theorem exists_declare (wellFormed : scope.app.tree.WellFormed)
    (atScope : scope.paths.get? item.scope = some around)
    (makes : surroundings.Makes item construct)
    (admits : scope.app.tree.Admits around item.id construct) :
    ∃ grown, declare surroundings scope item = .ok grown := by
  obtain ⟨created, creates⟩ := exists_create? scope.app surroundings around item.id makes.isOutput
  obtain ⟨added, done⟩ := (adds_of_create? wellFormed creates makes).adds admits
  refine exists_bind_eq_ok.mpr
    ⟨(around, item.id), Scope.locate_eq_ok.mpr ⟨admits.notEmpty, atScope, rfl⟩, ?_⟩
  dsimp only
  rw [creates]
  exact exists_bind_eq_ok.mpr ⟨added, mapError_eq_ok.mpr done, _, rfl⟩

/-- Of an output only the place is checked. -/
theorem declare_output (isOutput : item.isOutput = true) :
    declare surroundings scope item = .ok grown ↔
      item.id ≠ "" ∧ (∃ around, scope.paths.get? item.scope = some around) ∧ scope = grown := by
  constructor
  · intro declared
    obtain ⟨⟨around, id⟩, located, declared⟩ := bind_eq_ok.mp declared
    obtain ⟨notEmpty, atScope, rfl⟩ := Scope.locate_eq_ok.mp located
    dsimp only at declared
    rw [create?_of_isOutput isOutput] at declared
    exact ⟨notEmpty, ⟨around, atScope⟩, pure_eq_ok.mp declared⟩
  · rintro ⟨notEmpty, ⟨around, atScope⟩, rfl⟩
    refine bind_eq_ok.mpr ⟨_, Scope.locate_eq_ok.mpr ⟨notEmpty, atScope, rfl⟩, ?_⟩
    dsimp only
    rw [create?_of_isOutput isOutput]
    rfl

/-- Every construct has its scope among those that the first round makes. -/
def Enclosed (definition : Definition) : Prop :=
  ∀ item ∈ definition.constructs, item.scope ∈ allPaths (plainOf definition.constructs)

theorem plainOf_append_plain (plain : item.isOutput = false) :
    plainOf (items ++ [item]) = plainOf items ++ [item] := by
  rw [plainOf, plainOf, List.filter_append, List.filter_cons_of_pos (by rw [plain]; rfl),
    List.filter_nil]

theorem plainOf_append_output (isOutput : item.isOutput = true) :
    plainOf (items ++ [item]) = plainOf items := by
  rw [plainOf, plainOf, List.filter_append,
    List.filter_cons_of_neg (by rw [isOutput]; exact Bool.false_ne_true), List.filter_nil,
    List.append_nil]

theorem allPaths_plainOf_subset :
    allPaths (plainOf items) ⊆ allPaths (plainOf (items ++ [item])) := by
  intro path member
  rcases mem_allPaths.mp member with rfl | ⟨other, listed, rfl⟩
  · exact List.mem_cons_self
  · obtain ⟨inItems, plain⟩ := mem_plainOf.mp listed
    exact mem_allPaths.mpr
      (.inr ⟨other, mem_plainOf.mpr ⟨List.mem_append_left _ inItems, plain⟩, rfl⟩)

/-- One turn of the first round. -/
theorem holds_declare (holds : scope.Holds surroundings.Makes (plainOf items))
    (declared : declare surroundings scope item = .ok grown) :
    grown.Holds surroundings.Makes (plainOf (items ++ [item])) ∧
      item.scope ∈ allPaths (plainOf items) := by
  cases isOutput : item.isOutput with
  | true =>
    obtain ⟨_, ⟨around, atScope⟩, rfl⟩ := (declare_output isOutput).mp declared
    rw [plainOf_append_output isOutput]
    exact ⟨holds, holds.mem_allPaths_of_known atScope⟩
  | false =>
    obtain ⟨around, construct, atScope, makes, admits, tree, paths⟩ :=
      declare_plain holds.wellFormed isOutput declared
    rw [plainOf_append_plain isOutput]
    exact ⟨holds.grow atScope admits makes tree paths, holds.mem_allPaths_of_known atScope⟩

/-- After the first round the constructs but for outputs are there. -/
theorem holds_firstRound {definition : Definition} {declared : Scope}
    (run : definition.constructs.foldlM (declare surroundings) .empty = .ok declared) :
    declared.Holds surroundings.Makes (plainOf definition.constructs) ∧ definition.Enclosed := by
  refine foldlM_invariant (fun before (scope : Scope) =>
    scope.Holds surroundings.Makes (plainOf before) ∧
      ∀ item ∈ before, item.scope ∈ allPaths (plainOf before)) ?_
    ⟨Scope.holds_empty, fun _ never => nomatch never⟩ run
  rintro before item after scope grown _ ⟨holds, enclosed⟩ declared
  obtain ⟨holdsToo, scopeListed⟩ := holds_declare holds declared
  refine ⟨holdsToo, fun other member => allPaths_plainOf_subset ?_⟩
  rcases List.mem_append.mp member with early | last
  · exact enclosed other early
  · rwa [List.mem_singleton.mp last]

end StackSynth.Definition
