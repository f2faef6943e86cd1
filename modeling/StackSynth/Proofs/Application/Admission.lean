/-
This file says exactly when a construct can be added. Each operation makes checks of its own before
the tree makes its checks of ids, in another order and with errors of its own; but what is let
through is the same for all of them: constructs that may stand where they are added, under an id
that is usable and new there.
-/

import StackSynth.Application.Basic
import StackSynth.Proofs.Construct.Growth

namespace StackSynth

open Outcome

namespace Application

variable {app next : Application} {scope node : NodeId} {id : String} {construct : Construct}

/-- A computation that adds a construct to an application exactly if the tree admits it. -/
structure Adds (app : Application) (scope : NodeId) (id : String) (construct : Construct)
    (added : Except ConstructError (NodeId × Application)) : Prop where
  admits : ∀ {node next}, added = .ok (node, next) → app.tree.Admits scope id construct ∧
    node = app.tree.size ∧ next.tree = app.tree.withNew scope id construct
  adds : app.tree.Admits scope id construct → ∃ result, added = .ok result

theorem Adds.wellFormed {added : Except ConstructError (NodeId × Application)}
    (adds : app.Adds scope id construct added) (wellFormed : app.tree.WellFormed)
    (done : added = .ok (node, next)) : next.tree.WellFormed := by
  obtain ⟨admits, _, grew⟩ := adds.admits done
  exact grew ▸ wellFormed.withNew admits

theorem addConstruct_eq_ok (added : app.addConstruct scope id construct = .ok (node, next)) :
    app.tree.add scope id construct = .ok (node, next.tree) := by
  obtain ⟨⟨_, grown⟩, grew, same⟩ := bind_eq_ok.mp added
  cases same
  exact grew

theorem assets_of_addConstruct (added : app.addConstruct scope id construct = .ok (node, next)) :
    next.assets = app.assets := by
  obtain ⟨_, _, same⟩ := bind_eq_ok.mp added
  cases same
  rfl

theorem requireStack_eq_ok {kind : String} {stack : NodeId}
    (required : app.requireStack scope id kind = .ok stack) :
    app.tree.stackOf? scope = some stack := by
  obtain ⟨_, _, required⟩ := bind_eq_ok.mp required
  split at required
  · cases required
    assumption
  · cases required

theorem addConstruct_of_admits (admits : app.tree.Admits scope id construct) :
    app.addConstruct scope id construct =
      .ok (app.tree.size, { app with tree := app.tree.withNew scope id construct }) :=
  bind_eq_ok.mpr ⟨_, admits.add, rfl⟩

theorem find_of_admits (admits : app.tree.Admits scope id construct) :
    ∃ found, app.tree.find scope = .ok found := by
  obtain ⟨found, place⟩ := Tree.get?_of_lt admits.scope
  exact ⟨found, Tree.find_eq_ok.mpr place⟩

theorem adds_addGroup : app.Adds scope id .group (app.addGroup scope id) where
  admits added := by
    obtain ⟨_, _, added⟩ := bind_eq_ok.mp added
    have anywhere : app.tree.MayStand scope id .group := ⟨nofun, nofun, nofun⟩
    exact Tree.admits_of_add anywhere (addConstruct_eq_ok added)
  adds admits := by
    obtain ⟨found, place⟩ := find_of_admits admits
    exact exists_bind_eq_ok.mpr ⟨found, place, _, addConstruct_of_admits admits⟩

theorem adds_addStack {options : StackOptions} :
    app.Adds scope id (.topLevelStack options) (app.addStack scope id options) where
  admits added := by
    obtain ⟨_, _, added⟩ := bind_eq_ok.mp added
    split at added
    · cases added
    · rename_i outside
      simp only [check_eq_ok] at added
      obtain ⟨named, added⟩ := added
      refine Tree.admits_of_add ⟨nofun, fun _ _ => outside, ?_⟩ (addConstruct_eq_ok added)
      rintro other same
      cases same
      rw [Bool.not_eq_true', Bool.not_eq_false] at named
      exact named
  adds admits := by
    obtain ⟨found, place⟩ := find_of_admits admits
    refine exists_bind_eq_ok.mpr ⟨found, place, ?_⟩
    rw [admits.mayStand.outside options rfl]
    refine ⟨_, check_eq_ok.mpr ⟨?_, addConstruct_of_admits admits⟩⟩
    rw [Bool.not_eq_true', Bool.not_eq_false]
    exact admits.mayStand.named options rfl

theorem adds_addNestedStack :
    app.Adds scope id .nestedStack (app.addNestedStack scope id) where
  admits added := by
    simp only [addNestedStack, bind_eq_ok, check_eq_ok] at added
    obtain ⟨_, _, _, inside, added⟩ := added
    rw [Option.isNone_iff_eq_none] at inside
    obtain ⟨stack, around⟩ := Option.ne_none_iff_exists'.mp inside
    exact Tree.admits_of_add (Tree.mayStand_of_stackOf? around nofun) (addConstruct_eq_ok added)
  adds admits := by
    obtain ⟨found, place⟩ := find_of_admits admits
    obtain ⟨stack, around⟩ := admits.mayStand.inside rfl
    refine exists_bind_eq_ok.mpr ⟨found, place, _, check_eq_ok.mpr ⟨?_, check_eq_ok.mpr ⟨?_,
      addConstruct_of_admits admits⟩⟩⟩
    · rintro rfl
      rw [Tree.stackOf?, Tree.stackChain, Tree.ancestors_root] at around
      cases around
    · rw [around]
      exact Bool.false_ne_true

theorem requireStack_of_admits (admits : app.tree.Admits scope id construct)
    (needsStack : construct.needsStack = true) (kind : String) :
    ∃ stack, app.tree.stackOf? scope = some stack ∧
      app.requireStack scope id kind = .ok stack := by
  obtain ⟨found, place⟩ := find_of_admits admits
  obtain ⟨stack, around⟩ := admits.mayStand.inside needsStack
  refine ⟨stack, around, bind_eq_ok.mpr ⟨found, place, ?_⟩⟩
  rw [around]
  rfl

/-- Operations that ask for a stack around the construct differ in their errors only. -/
theorem adds_requireStack {kind : String} (needsStack : construct.needsStack = true)
    (noTopLevel : ∀ options, construct ≠ .topLevelStack options) :
    app.Adds scope id construct (do
      let _ ← app.requireStack scope id kind
      app.addConstruct scope id construct) where
  admits added := by
    obtain ⟨stack, around, added⟩ := bind_eq_ok.mp added
    exact Tree.admits_of_add (Tree.mayStand_of_stackOf? (requireStack_eq_ok around) noTopLevel)
      (addConstruct_eq_ok added)
  adds admits := by
    obtain ⟨stack, _, required⟩ := requireStack_of_admits admits needsStack kind
    exact exists_bind_eq_ok.mpr ⟨stack, required, _, addConstruct_of_admits admits⟩

theorem adds_addResource {resource : Resource} :
    app.Adds scope id (.resource resource) (app.addResource scope id resource) :=
  adds_requireStack rfl nofun

theorem adds_addParameter {declaration : ParameterDecl} :
    app.Adds scope id (.parameter declaration) (app.addParameter scope id declaration) :=
  adds_requireStack rfl nofun

theorem adds_addOutput {spec : OutputSpec} :
    app.Adds scope id (.output spec) (app.addOutput scope id spec) :=
  adds_requireStack rfl nofun

/-- What an operation that adds an asset has found, and what it leaves. -/
theorem addAsset_eq_ok {bundler : Asset.Bundler} {source : Asset.Source} {handle : Asset.Handle}
    (added : app.addAsset bundler scope id source = .ok (handle, next)) :
    ∃ stack top hash, app.tree.stackOf? scope = some stack ∧
      app.tree.topLevelOf? stack = some top ∧ bundler source = .ok hash ∧
      app.tree.add scope id (.asset hash source.packaging) = .ok (handle.node, next.tree) ∧
      next.assets =
        (app.assets.register top ⟨hash, source.packaging, source.localPath⟩).1 := by
  obtain ⟨stack, around, added⟩ := bind_eq_ok.mp added
  split at added
  · cases added
  · rename_i top outermost
    obtain ⟨hash, hashed, added⟩ := bind_eq_ok.mp added
    obtain ⟨⟨node, grown⟩, placed, same⟩ := bind_eq_ok.mp added
    have grew := addConstruct_eq_ok placed
    have registry := assets_of_addConstruct placed
    rw [← registry]
    cases same
    exact ⟨stack, top, hash, requireStack_eq_ok around, outermost, mapError_eq_ok.mp hashed,
      grew, rfl⟩

end Application

end StackSynth
