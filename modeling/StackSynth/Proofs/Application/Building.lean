/-
This file says which applications there are: those that building steps lead to, in any order, with
any scopes and any texts. A step that is refused leaves the application as it was, so a history of
steps always ends in an application, and its tree is well formed because every step keeps it so.
-/

import StackSynth.Proofs.Application.Admission

namespace StackSynth

open Outcome

/-- Identifies content by where the publisher finds it. -/
def Asset.byPath : Asset.Bundler := fun source => .ok source.localPath

/-- A step of building an application. -/
inductive BuildStep where
  | group (scope : NodeId) (id : String)
  | topLevelStack (scope : NodeId) (id : String) (options : StackOptions)
  | nestedStack (scope : NodeId) (id : String)
  | resource (scope : NodeId) (id : String) (resource : Resource)
  | parameter (scope : NodeId) (id : String) (declaration : ParameterDecl)
  | output (scope : NodeId) (id : String) (spec : OutputSpec)
  | asset (scope : NodeId) (id : String) (source : Asset.Source)
  | property (node : NodeId) (name : String) (value : Deferred)

namespace Application

/-- What a step makes of an application. -/
def step (bundler : Asset.Bundler) (app : Application) :
    BuildStep → Except ConstructError Application
  | .group scope id => (app.addGroup scope id).map (·.2)
  | .topLevelStack scope id options => (app.addStack scope id options).map (·.2)
  | .nestedStack scope id => (app.addNestedStack scope id).map (·.2)
  | .resource scope id resource => (app.addResource scope id resource).map (·.2)
  | .parameter scope id declaration => (app.addParameter scope id declaration).map (·.2)
  | .output scope id spec => (app.addOutput scope id spec).map (·.2)
  | .asset scope id source => (app.addAsset bundler scope id source).map (·.2)
  | .property node name value => app.setProperty node name value

/-- The application after steps, of which the refused ones leave nothing behind. -/
def after (bundler : Asset.Bundler) (app : Application) (steps : List BuildStep) : Application :=
  steps.foldl (fun app step => (app.step bundler step).toOption.getD app) app

/-- The application that steps build. -/
def build (bundler : Asset.Bundler) (steps : List BuildStep) : Application :=
  empty.after bundler steps

/-- A value that a stack takes out of a nested stack and another one into a nested stack of its
own. -/
def relay : List BuildStep :=
  [.topLevelStack 0 "S" ⟨none, .unspecified⟩, .nestedStack 1 "N",
    .resource 2 "A" ⟨"Bucket", [], none⟩, .topLevelStack 0 "T" ⟨none, .unspecified⟩,
    .nestedStack 4 "M", .resource 5 "B" ⟨"Bucket", [("Source", .getAtt 3 "Arn")], none⟩]

variable {app next : Application} {scope node : NodeId} {id : String}

/-! ### What a step preserves -/

theorem wellFormed_empty : empty.tree.WellFormed := by
  have onlyRoot : ∀ {node found}, empty.tree.get? node = some found →
      node = Tree.rootId ∧ found = ⟨"", none, .root⟩ := by
    intro node found place
    have within := Tree.lt_of_get? place
    have atRoot : node = 0 := Nat.lt_one_iff.mp within
    subst atRoot
    cases place
    exact ⟨rfl, rfl⟩
  constructor
  case root => rfl
  case parented =>
    intro node found place notRoot
    exact absurd (onlyRoot place).1 notRoot
  case usableId =>
    intro node found place notRoot
    exact absurd (onlyRoot place).1 notRoot
  case siblings =>
    intro first second _ _ firstPlace secondPlace _ _
    rw [(onlyRoot firstPlace).1, (onlyRoot secondPlace).1]
  case outermost =>
    intro node found options place shape
    rw [(onlyRoot place).2] at shape
    cases shape
  case enclosed =>
    intro node found place needsStack
    rw [(onlyRoot place).2] at needsStack
    cases needsStack

theorem map_snd_eq_ok {α β ε : Type} {first : Except ε (α × β)} {result : β}
    (done : first.map (·.2) = .ok result) : ∃ value, first = .ok (value, result) := by
  cases first with
  | ok pair =>
    cases done
    exact ⟨pair.1, rfl⟩
  | error _ => cases done

/-- Every step keeps the tree well formed. -/
theorem wellFormed_step {bundler : Asset.Bundler} {step : BuildStep}
    (wellFormed : app.tree.WellFormed) (done : app.step bundler step = .ok next) :
    next.tree.WellFormed := by
  cases step with
  | group scope id =>
    obtain ⟨_, added⟩ := map_snd_eq_ok done
    exact adds_addGroup.wellFormed wellFormed added
  | topLevelStack scope id options =>
    obtain ⟨_, added⟩ := map_snd_eq_ok done
    exact adds_addStack.wellFormed wellFormed added
  | nestedStack scope id =>
    obtain ⟨_, added⟩ := map_snd_eq_ok done
    exact adds_addNestedStack.wellFormed wellFormed added
  | resource scope id resource =>
    obtain ⟨_, added⟩ := map_snd_eq_ok done
    exact adds_addResource.wellFormed wellFormed added
  | parameter scope id declaration =>
    obtain ⟨_, added⟩ := map_snd_eq_ok done
    exact adds_addParameter.wellFormed wellFormed added
  | output scope id spec =>
    obtain ⟨_, added⟩ := map_snd_eq_ok done
    exact adds_addOutput.wellFormed wellFormed added
  | asset scope id source =>
    obtain ⟨_, added⟩ := map_snd_eq_ok done
    obtain ⟨stack, top, hash, around, _, _, grew, _⟩ := addAsset_eq_ok added
    have mayStand : app.tree.MayStand scope id (.asset hash source.packaging) :=
      Tree.mayStand_of_stackOf? around nofun
    obtain ⟨admits, _, same⟩ := Tree.admits_of_add mayStand grew
    exact same ▸ wellFormed.withNew admits
  | property node name value =>
    obtain ⟨found, place, done⟩ := bind_eq_ok.mp done
    split at done
    · rename_i resource shape
      cases done
      exact wellFormed.replace (Tree.find_eq_ok.mp place) shape
    · cases done

/-- What holds at the start and is kept by every step holds of whatever steps lead to. -/
theorem after_induction {bundler : Asset.Bundler} {holds : Application → Prop}
    (kept : ∀ app step next, holds app → app.step bundler step = .ok next → holds next)
    (atStart : holds app) (steps : List BuildStep) : holds (app.after bundler steps) := by
  refine List.foldlRecOn steps _ atStart fun app before step _ => ?_
  cases done : app.step bundler step with
  | ok next => exact kept app step next before done
  | error _ => exact before

/-- The tree of every application is well formed. -/
theorem wellFormed_build (bundler : Asset.Bundler) (steps : List BuildStep) :
    (build bundler steps).tree.WellFormed :=
  after_induction (fun _ _ _ wellFormed done => wellFormed_step wellFormed done)
    wellFormed_empty steps

end Application

end StackSynth
