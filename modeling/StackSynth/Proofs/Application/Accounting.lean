/-
This file keeps account of the assets of an application. A step adds a construct and leaves the
registry alone, or registers the asset that it adds, or changes a resource; so the registry finds
under a hash what the tree has first, and lists no hash twice. Leaves that read assets come with
the steps, and a step may bring those of assets that are there.
-/

import StackSynth.Proofs.Application.Building
import StackSynth.Proofs.Asset.Registry
import StackSynth.Proofs.Construct.Assets

namespace StackSynth

open Outcome

/-- The leaves that a step brings. -/
def BuildStep.leaves : BuildStep → List Leaf
  | .resource _ _ content => Deferred.leavesOfMembers content.properties
  | .output _ _ spec => spec.value.leaves
  | .property _ _ value => value.leaves
  | _ => []

/-- A property that is set brings no leaves but its own. -/
theorem Deferred.mem_leavesOfMembers_set {name : String} {value : Deferred} {leaf : Leaf}
    {members : List (String × Deferred)}
    (member : leaf ∈ leavesOfMembers (Fields.set name value members)) :
    leaf ∈ leavesOfMembers members ∨ leaf ∈ value.leaves := by
  induction members with
  | nil =>
    rw [Fields.set, leavesOfMembers, leavesOfMembers, List.append_nil] at member
    exact .inr member
  | cons head rest inductionHypothesis =>
    obtain ⟨other, old⟩ := head
    rw [Fields.set] at member
    rw [leavesOfMembers, List.mem_append]
    split at member
    · rw [leavesOfMembers, List.mem_append] at member
      rcases member with new | behind
      · exact .inr new
      · exact .inl (.inr behind)
    · rw [leavesOfMembers, List.mem_append] at member
      rcases member with here | behind
      · exact .inl (.inl here)
      · exact (inductionHypothesis behind).imp_left .inr

namespace Application

variable {bundler : Asset.Bundler} {app next : Application}

/-- An asset is added by the hash of its source, and by nothing else of what yields hashes. -/
theorem addAsset_of_hash {source : Asset.Source} {hash : ContentHash}
    (hashed : bundler source = .ok hash) (scope : NodeId) (id : String) :
    app.addAsset bundler scope id source = app.addAsset (fun _ => .ok hash) scope id source := by
  rw [addAsset, addAsset, hashed]

/-! ### What a step changes -/

/-- What a step does to an application. -/
inductive Change (bundler : Asset.Bundler) (app next : Application) : BuildStep → Prop where
  /-- It adds a construct that is no asset and no root. -/
  | grown {step : BuildStep} {scope node : NodeId} {id : String} {construct : Construct}
    (plain : ∀ hash packaging, construct ≠ .asset hash packaging) (notRoot : construct ≠ .root)
    (leaves : construct.leaves = step.leaves)
    (added : app.tree.add scope id construct = .ok (node, next.tree))
    (assets : next.assets = app.assets) : Change bundler app next step
  /-- It adds an asset and registers it on its top-level stack. -/
  | registered {scope node stack top : NodeId} {id : String} {source : Asset.Source}
    {hash : ContentHash} (belongs : app.tree.stackOf? scope = some stack)
    (outermost : app.tree.topLevelOf? stack = some top) (hashed : bundler source = .ok hash)
    (added : app.tree.add scope id (.asset hash source.packaging) = .ok (node, next.tree))
    (assets : next.assets =
      (app.assets.register top ⟨hash, source.packaging, source.localPath⟩).1) :
    Change bundler app next (.asset scope id source)
  /-- It changes a property of a resource. -/
  | replaced {node : NodeId} {name : String} {value : Deferred} {found : Node}
    {resource : Resource} (place : app.tree.get? node = some found)
    (shape : found.construct = .resource resource)
    (tree : next.tree = app.tree.replace node (.resource (resource.setProperty name value)))
    (assets : next.assets = app.assets) : Change bundler app next (.property node name value)

/-- Adding a construct that is no asset leaves the registry alone. -/
theorem change_of_addConstruct {step : BuildStep} {scope node : NodeId} {id : String}
    {construct : Construct} (plain : ∀ hash packaging, construct ≠ .asset hash packaging)
    (notRoot : construct ≠ .root) (leaves : construct.leaves = step.leaves)
    (added : app.addConstruct scope id construct = .ok (node, next)) :
    Change bundler app next step :=
  .grown plain notRoot leaves (addConstruct_eq_ok added) (assets_of_addConstruct added)

theorem change_of_step {step : BuildStep} (done : app.step bundler step = .ok next) :
    Change bundler app next step := by
  cases step with
  | group scope id =>
    obtain ⟨_, added⟩ := map_snd_eq_ok done
    obtain ⟨_, _, added⟩ := bind_eq_ok.mp added
    exact change_of_addConstruct (by simp) (by simp) rfl added
  | topLevelStack scope id options =>
    obtain ⟨_, added⟩ := map_snd_eq_ok done
    obtain ⟨_, _, added⟩ := bind_eq_ok.mp added
    split at added
    · cases added
    · simp only [check_eq_ok] at added
      exact change_of_addConstruct (by simp) (by simp) rfl added.2
  | nestedStack scope id =>
    obtain ⟨_, added⟩ := map_snd_eq_ok done
    simp only [addNestedStack, bind_eq_ok, check_eq_ok] at added
    obtain ⟨_, _, _, _, added⟩ := added
    exact change_of_addConstruct (by simp) (by simp) rfl added
  | resource scope id resource =>
    obtain ⟨_, added⟩ := map_snd_eq_ok done
    obtain ⟨_, _, added⟩ := bind_eq_ok.mp added
    exact change_of_addConstruct (by simp) (by simp) rfl added
  | parameter scope id declaration =>
    obtain ⟨_, added⟩ := map_snd_eq_ok done
    obtain ⟨_, _, added⟩ := bind_eq_ok.mp added
    exact change_of_addConstruct (by simp) (by simp) rfl added
  | output scope id spec =>
    obtain ⟨_, added⟩ := map_snd_eq_ok done
    obtain ⟨_, _, added⟩ := bind_eq_ok.mp added
    exact change_of_addConstruct (by simp) (by simp) rfl added
  | asset scope id source =>
    obtain ⟨_, added⟩ := map_snd_eq_ok done
    obtain ⟨_, _, _, around, outermost, hashed, grew, registry⟩ := addAsset_eq_ok added
    exact .registered around outermost hashed grew registry
  | property node name value =>
    obtain ⟨found, place, done⟩ := bind_eq_ok.mp done
    split at done
    · rename_i resource shape
      cases done
      exact .replaced (Tree.find_eq_ok.mp place) shape rfl rfl
    · cases done

/-- No step takes an asset away. -/
theorem grows_of_step {step : BuildStep} (wellFormed : app.tree.WellFormed)
    (done : app.step bundler step = .ok next) :
    ∀ asset ∈ app.tree.assets, asset ∈ next.tree.assets := by
  intro asset member
  cases change_of_step done with
  | grown plain _ _ added _ => exact Tree.assets_add_plain wellFormed added plain ▸ member
  | registered belongs outermost _ added _ =>
    rw [Tree.assets_add_asset wellFormed added belongs outermost]
    exact List.mem_append_left _ member
  | replaced place shape tree _ =>
    rw [tree, Tree.assets_replace wellFormed.ordered place shape]
    exact member

/-! ### The account -/

/-- The registry of an application finds what its tree has first, and what the tree reads of assets
is there; what its assets are made of was listed. -/
structure Accounted (bundler : Asset.Bundler) (listed : Asset.Source → Prop)
    (app : Application) : Prop where
  wellFormed : app.tree.WellFormed
  once : app.assets.Once
  first : ∀ top hash,
    (app.assets.find? top hash).map Asset.Record.packaging = app.tree.packagingOf? top hash
  offersAll : app.tree.OffersAll
  sources : ∀ asset ∈ app.tree.assets, ∃ source, listed source ∧
    bundler source = .ok asset.hash ∧ source.packaging = asset.packaging

variable {listed : Asset.Source → Prop}

theorem accounted_empty : Accounted bundler listed empty where
  wellFormed := wellFormed_empty
  once := Asset.Registry.once_empty
  first _ _ := rfl
  offersAll := by
    intro node found place leaf member
    have atRoot : node = 0 := Nat.lt_one_iff.mp (Tree.lt_of_get? place)
    subst atRoot
    cases place
    exact nomatch member
  sources _ never := nomatch never

/-- The account is kept where neither the registry nor the assets of the tree change. -/
theorem Accounted.of_sameAssets (accounted : Accounted bundler listed app)
    (wellFormed : next.tree.WellFormed) (registry : next.assets = app.assets)
    (same : next.tree.assets = app.tree.assets) (offersAll : next.tree.OffersAll) :
    Accounted bundler listed next where
  wellFormed := wellFormed
  once := registry ▸ accounted.once
  first top hash := by
    rw [registry, Tree.packagingOf?, same]
    exact accounted.first top hash
  offersAll := offersAll
  sources := same ▸ accounted.sources

/-- The account is kept where an asset of what is listed comes last in the tree and is registered,
as the registry looks at the first of a hash only. -/
theorem Accounted.of_registered {top : NodeId} {hash : ContentHash} {source : Asset.Source}
    (accounted : Accounted bundler listed app) (wellFormed : next.tree.WellFormed)
    (registry : next.assets =
      (app.assets.register top ⟨hash, source.packaging, source.localPath⟩).1)
    (appended : next.tree.assets = app.tree.assets ++ [⟨top, hash, source.packaging⟩])
    (offersAll : next.tree.OffersAll) (lists : listed source)
    (hashed : bundler source = .ok hash) : Accounted bundler listed next where
  wellFormed := wellFormed
  once := registry ▸ accounted.once.register top _
  first other content := by
    rw [registry, Asset.Registry.find?_register, Tree.packagingOf?_of_append appended,
      ← accounted.first]
    cases app.assets.find? other content with
    | some first => rfl
    | none =>
      rw [Option.none_or, Option.map_none, Option.none_or]
      split <;> rfl
  offersAll := offersAll
  sources := by
    intro asset member
    rw [appended] at member
    rcases List.mem_append.mp member with early | last
    · exact accounted.sources asset early
    · rw [List.mem_singleton.mp last]
      exact ⟨source, lists, hashed, rfl⟩

/-- A step keeps the account if it reads only assets that are there and makes assets only of what
is listed. -/
theorem Accounted.step {step : BuildStep} (accounted : Accounted bundler listed app)
    (offers : ∀ leaf ∈ step.leaves, app.tree.Offers leaf)
    (lists : ∀ scope id source, step = .asset scope id source → listed source)
    (done : app.step bundler step = .ok next) : Accounted bundler listed next := by
  have wellFormed := wellFormed_step accounted.wellFormed done
  cases change_of_step done with
  | grown plain _ leaves added assets =>
    have sameAssets := Tree.assets_add_plain accounted.wellFormed added plain
    refine accounted.of_sameAssets wellFormed assets sameAssets ?_
    exact accounted.offersAll.add added (fun _ member => sameAssets ▸ member) (leaves ▸ offers)
  | registered belongs outermost hashed added assets =>
    have appended := Tree.assets_add_asset accounted.wellFormed added belongs outermost
    refine accounted.of_registered wellFormed assets appended ?_ (lists _ _ _ rfl) hashed
    refine accounted.offersAll.add added (fun _ member => ?_) (fun _ never => nomatch never)
    rw [appended]
    exact List.mem_append_left _ member
  | @replaced node name value found resource place shape tree assets =>
    have sameAssets : next.tree.assets = app.tree.assets :=
      tree ▸ Tree.assets_replace accounted.wellFormed.ordered place shape
    refine accounted.of_sameAssets wellFormed assets sameAssets ?_
    rw [tree]
    refine accounted.offersAll.replace accounted.wellFormed.ordered place shape ?_
    intro leaf member
    rcases Deferred.mem_leavesOfMembers_set member with old | new
    · refine accounted.offersAll node found place leaf ?_
      rw [shape]
      exact old
    · exact offers leaf new

end Application

end StackSynth
