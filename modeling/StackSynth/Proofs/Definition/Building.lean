/-
This file says which applications definitions build: each construct is added by a step, and later
steps give values to properties and outputs, which read only assets that are there. So an
application that is built from a definition accounts for its assets, whose sources the definition
lists.
-/

import StackSynth.Definition.Build
import StackSynth.Proofs.Application.Accounting
import StackSynth.Proofs.Definition.Offering

namespace StackSynth

open Outcome

namespace Definition

/-- The source of the asset that a construct is to be. -/
def Surroundings.source? (surroundings : Surroundings) : Content → Option Asset.Source
  | .fileAsset source exclude => some (surroundings.fileSource source exclude)
  | .imageAsset image => some (surroundings.imageSource image)
  | _ => none

/-- A definition lists the source of an asset. -/
def Lists (definition : Definition) (surroundings : Surroundings) (source : Asset.Source) : Prop :=
  ∃ item ∈ definition.constructs, surroundings.source? item.content = some source

/-- What a definition lists is no content that is made during synthesis. -/
theorem not_lists_inline {definition : Definition} {surroundings : Surroundings} {name : String}
    {contents : ByteArray} : ¬definition.Lists surroundings (.inline name contents) := by
  rintro ⟨item, _, isSource⟩
  unfold Surroundings.source? at isSource
  split at isSource
  · have sameSource := Option.some.inj isSource
    unfold Surroundings.fileSource at sameSource
    dsimp only at sameSource
    split at sameSource <;> cases sameSource
  · cases isSource
  · cases isSource

/-- The application accounts for assets that the definition lists. -/
abbrev Accounts (definition : Definition) (surroundings : Surroundings) (app : Application) :
    Prop :=
  app.Accounted surroundings.bundler (definition.Lists surroundings)

variable {definition : Definition} {surroundings : Surroundings} {app next : Application}
  {scope grown : Scope} {item : Item}

/-! ### The first round -/

theorem map_snd_of_eq_ok {α β ε : Type} {first : Except ε (α × β)} {value : α} {result : β}
    (done : first = .ok (value, result)) : first.map (·.2) = .ok result := by
  rw [done]
  rfl

/-- Creating a construct is a step that brings no leaves, and an asset only of the source that is
given. -/
theorem exists_step_of_create? {around node : NodeId} {id : String} {content : Content}
    {created : Except ConstructError (NodeId × Application)}
    (creates : create? app surroundings around id content = some created)
    (done : created = .ok (node, next)) : ∃ step : BuildStep,
      app.step surroundings.bundler step = .ok next ∧ step.leaves = [] ∧
        ∀ scope id source, step = .asset scope id source →
          surroundings.source? content = some source := by
  have asset : ∀ {source}, addAsset app surroundings around id source = .ok (node, next) →
      app.step surroundings.bundler (.asset around id source) = .ok next := by
    intro source added
    obtain ⟨⟨handle, grown⟩, added, same⟩ := bind_eq_ok.mp added
    cases same
    exact map_snd_of_eq_ok added
  cases content with
  | group =>
    cases creates
    exact ⟨.group around id, map_snd_of_eq_ok done, rfl, nofun⟩
  | stack options =>
    cases creates
    exact ⟨.topLevelStack around id options, map_snd_of_eq_ok done, rfl, nofun⟩
  | nestedStack =>
    cases creates
    exact ⟨.nestedStack around id, map_snd_of_eq_ok done, rfl, nofun⟩
  | resource type attributes properties =>
    cases creates
    exact ⟨.resource around id ⟨type, [], attributes⟩, map_snd_of_eq_ok done, rfl, nofun⟩
  | parameter declaration =>
    cases creates
    exact ⟨.parameter around id declaration, map_snd_of_eq_ok done, rfl, nofun⟩
  | output value description exported => cases creates
  | fileAsset source exclude =>
    cases creates
    refine ⟨.asset around id (surroundings.fileSource source exclude), asset done, rfl, ?_⟩
    rintro _ _ _ ⟨⟩
    rfl
  | imageAsset image =>
    cases creates
    refine ⟨.asset around id (surroundings.imageSource image), asset done, rfl, ?_⟩
    rintro _ _ _ ⟨⟩
    rfl

theorem grown_eq_ok {path : String} {added : Except ConstructError (NodeId × Application)}
    (done : scope.grown path added = .ok grown) :
    ∃ node, added = .ok (node, grown.app) := by
  obtain ⟨⟨node, app⟩, added, same⟩ := bind_eq_ok.mp done
  cases same
  exact ⟨node, mapError_eq_ok.mp added⟩

theorem accounts_declare (accounts : definition.Accounts surroundings scope.app)
    (listed : item ∈ definition.constructs)
    (declared : declare surroundings scope item = .ok grown) :
    definition.Accounts surroundings grown.app := by
  obtain ⟨⟨around, id⟩, _, declared⟩ := bind_eq_ok.mp declared
  dsimp only at declared
  split at declared
  · rename_i created creates
    obtain ⟨node, done⟩ := grown_eq_ok declared
    obtain ⟨step, stepped, noLeaves, source⟩ := exists_step_of_create? creates done
    refine accounts.step ?_ (fun _ _ _ same => ⟨item, listed, source _ _ _ same⟩) stepped
    rw [noLeaves]
    exact fun _ never => nomatch never
  · cases declared
    exact accounts

/-! ### The second round -/

theorem accounts_assign {node : NodeId} {properties : List (String × Deferred)} :
    ∀ {app next : Application}, definition.Accounts surroundings app →
      (∀ leaf ∈ Deferred.leavesOfMembers properties, app.tree.Offers leaf) →
      assign app node properties = .ok next → definition.Accounts surroundings next := by
  induction properties with
  | nil =>
    intro app next accounts _ done
    cases done
    exact accounts
  | cons property rest inductionHypothesis =>
    intro app next accounts offers done
    obtain ⟨name, value⟩ := property
    rw [assign, List.foldlM_cons] at done
    obtain ⟨changed, stepped, done⟩ := bind_eq_ok.mp done
    have stepped : app.step surroundings.bundler (.property node name value) = .ok changed :=
      stepped
    have grows := Application.grows_of_step accounts.wellFormed stepped
    refine inductionHypothesis (accounts.step ?_ ?_ stepped) ?_ done
    · exact fun leaf member => offers leaf (List.mem_append_left _ member)
    · exact fun _ _ _ never => nomatch never
    · exact fun leaf member => (offers leaf (List.mem_append_right _ member)).mono grows

theorem accounts_complete (accounts : definition.Accounts surroundings scope.app)
    (completed : complete scope item = .ok grown) :
    definition.Accounts surroundings grown.app := by
  rw [complete] at completed
  split at completed
  · obtain ⟨node, _, completed⟩ := bind_eq_ok.mp completed
    obtain ⟨values, found, completed⟩ := bind_eq_ok.mp completed
    obtain ⟨app, assigned, same⟩ := bind_eq_ok.mp completed
    cases same
    refine accounts_assign accounts ?_ (mapError_eq_ok.mp assigned)
    exact Scope.offers_memberValues (fun member _ => scope.harmless _ member.2) found
  · rename_i expression description exported _
    obtain ⟨⟨around, id⟩, _, completed⟩ := bind_eq_ok.mp completed
    obtain ⟨value, found, completed⟩ := bind_eq_ok.mp completed
    obtain ⟨node, added⟩ := grown_eq_ok completed
    have stepped : scope.app.step surroundings.bundler
        (.output around id ⟨value, description, exported⟩) = .ok grown.app :=
      map_snd_of_eq_ok added
    refine accounts.step ?_ ?_ stepped
    · exact scope.harmless _ _ value found
    · exact fun _ _ _ never => nomatch never
  · cases completed
    exact accounts

/-- What a definition builds accounts for its assets. -/
theorem accounts_build (built : definition.build surroundings = .ok app) :
    definition.Accounts surroundings app := by
  obtain ⟨declared, firstRound, built⟩ := bind_eq_ok.mp built
  obtain ⟨completed, secondRound, same⟩ := bind_eq_ok.mp built
  cases same
  have afterFirst : definition.Accounts surroundings declared.app := by
    refine foldlM_invariant (fun _ scope => definition.Accounts surroundings scope.app) ?_
      Application.accounted_empty firstRound
    intro before item after scope grown split accounts done
    refine accounts_declare accounts ?_ done
    rw [split]
    exact List.mem_append_right _ List.mem_cons_self
  refine foldlM_invariant (fun _ scope => definition.Accounts surroundings scope.app) ?_
    afterFirst secondRound
  intro _ _ _ _ _ _ accounts done
  exact accounts_complete accounts done

end Definition

end StackSynth
