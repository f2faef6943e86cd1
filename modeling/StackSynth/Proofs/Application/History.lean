/-
This file follows the construction of an application, whatever is tried with it. Steps that are
refused change nothing; the others add one construct behind all others, and behind the other
children of its parent, or change a resource. What every step keeps is a well-formed tree with one
root, whose assets are registered.
-/

import StackSynth.Proofs.Application.Accounting
import StackSynth.Proofs.Construct.Addition
import StackSynth.Proofs.Synthesis.Keeping

namespace StackSynth

open Outcome

namespace Application

variable {bundler : Asset.Bundler} {app next : Application} {node : NodeId}

/-- The application that steps lead to, where what yields hashes may be another one at each step,
as content changes while an application is built. Refused steps leave nothing behind. -/
def assembled (history : List (Asset.Bundler × BuildStep)) : Application :=
  history.foldl (fun app entry => (app.step entry.1 entry.2).toOption.getD app) empty

/-- What holds at the start and is kept by every step, whatever yields hashes then, holds of
every application. -/
theorem assembled_induction {holds : Application → Prop} (atStart : holds empty)
    (kept : ∀ bundler app step next, holds app → app.step bundler step = .ok next → holds next)
    (history : List (Asset.Bundler × BuildStep)) : holds (assembled history) := by
  refine List.foldlRecOn history _ atStart fun app before entry _ => ?_
  cases done : app.step entry.1 entry.2 with
  | ok next => exact kept entry.1 app entry.2 next before done
  | error _ => exact before

/-- Steps that all find the same hashes build the same application. -/
theorem assembled_map (bundler : Asset.Bundler) (steps : List BuildStep) :
    assembled (steps.map (bundler, ·)) = build bundler steps :=
  List.foldl_map

/-! ### Children -/

theorem parent?_replace {tree : Tree} {place : NodeId} {construct : Construct} :
    (tree.replace place construct).parent? node = tree.parent? node := by
  rw [Tree.parent?, Tree.parent?, Tree.get?_replace]
  cases tree.get? node with
  | none => rfl
  | some found =>
    rw [Option.map_some, Option.bind_some, Option.bind_some]
    split <;> rfl

theorem size_replace {tree : Tree} {place : NodeId} {construct : Construct} :
    (tree.replace place construct).size = tree.size := Array.size_modify

theorem children_replace {tree : Tree} {place : NodeId} {construct : Construct} :
    (tree.replace place construct).children node = tree.children node := by
  rw [Tree.children, Tree.children, size_replace]
  simp only [parent?_replace]

/-- A step that adds a construct puts it behind the children of its parent; children are never
moved or taken away. -/
theorem children_step {step : BuildStep} (done : app.step bundler step = .ok next)
    (node : NodeId) :
    next.tree.children node = app.tree.children node ++
      if next.tree.size = app.tree.size + 1 ∧ next.tree.parent? app.tree.size = some node
      then [app.tree.size] else [] := by
  have ofAdd : ∀ {scope node' id construct},
      app.tree.add scope id construct = .ok (node', next.tree) →
      next.tree.children node = app.tree.children node ++
        if next.tree.size = app.tree.size + 1 ∧ next.tree.parent? app.tree.size = some node
        then [app.tree.size] else [] := by
    intro scope node' id construct added
    obtain ⟨_, _, older, _, _, grew⟩ := Tree.add_eq_ok.mp added
    rw [grew, Tree.children_withNew older, Tree.size_withNew, Tree.parent?_withNew]
    by_cases here : node = scope
    · subst here
      simp
    · simp [here, Ne.symm here]
  cases change_of_step done with
  | grown _ _ _ added _ => exact ofAdd added
  | registered _ _ _ added _ => exact ofAdd added
  | replaced _ _ tree _ =>
    rw [tree, size_replace, if_neg (by simp), List.append_nil, children_replace]

/-! ### What every step keeps -/

/-- What the operations keep: a well-formed tree with one root, whose assets are registered. -/
structure Kept (app : Application) : Prop where
  wellFormed : app.tree.WellFormed
  oneRoot : ∀ {node found}, app.tree.get? node = some found → found.construct = .root →
    node = Tree.rootId
  registered : ∀ asset ∈ app.tree.assets, ∃ record, app.assets.find? asset.top asset.hash =
    some record

theorem kept_empty : Kept empty where
  wellFormed := wellFormed_empty
  oneRoot place _ := Nat.lt_one_iff.mp (Tree.lt_of_get? place)
  registered _ never := nomatch never

/-- A tree to which something other than a root is added still has one root. -/
theorem oneRoot_add {tree grown : Tree} {scope added : NodeId} {id : String}
    {construct : Construct}
    (oneRoot : ∀ {node found}, tree.get? node = some found → found.construct = .root →
      node = Tree.rootId)
    (notRoot : construct ≠ .root) (grew : tree.add scope id construct = .ok (added, grown))
    {found : Node} (place : grown.get? node = some found) (isRoot : found.construct = .root) :
    node = Tree.rootId := by
  obtain ⟨_, _, _, _, _, rfl⟩ := Tree.add_eq_ok.mp grew
  rcases Tree.get?_withNew_eq_some.mp place with ⟨_, rfl⟩ | old
  · exact absurd isRoot notRoot
  · exact oneRoot old isRoot

theorem Kept.step {step : BuildStep} (kept : app.Kept) (done : app.step bundler step = .ok next) :
    next.Kept where
  wellFormed := wellFormed_step kept.wellFormed done
  oneRoot := by
    intro node found place isRoot
    cases change_of_step done with
    | grown _ notRoot _ added _ => exact oneRoot_add kept.oneRoot notRoot added place isRoot
    | registered _ _ _ added _ =>
      exact oneRoot_add kept.oneRoot Construct.noConfusion added place isRoot
    | replaced _ _ tree _ =>
      rw [tree, Tree.get?_replace] at place
      obtain ⟨old, atOld, rfl⟩ := Option.map_eq_some_iff.mp place
      split at isRoot
      · cases isRoot
      · exact kept.oneRoot atOld isRoot
  registered := by
    intro asset listed
    cases change_of_step done with
    | grown plain _ _ added assets =>
      rw [Tree.assets_add_plain kept.wellFormed added plain] at listed
      exact assets ▸ kept.registered asset listed
    | registered belongs outermost _ added assets =>
      rw [Tree.assets_add_asset kept.wellFormed added belongs outermost] at listed
      rw [assets]
      rcases List.mem_append.mp listed with early | last
      · obtain ⟨record, known⟩ := kept.registered asset early
        exact ⟨record, Asset.Registry.find?_register_of_some known⟩
      · rw [List.mem_singleton.mp last]
        exact Asset.Registry.exists_find?_register _ _ _
    | replaced place shape tree assets =>
      rw [tree, Tree.assets_replace kept.wellFormed.ordered place shape] at listed
      exact assets ▸ kept.registered asset listed

theorem kept_assembled (history : List (Asset.Bundler × BuildStep)) : (assembled history).Kept :=
  assembled_induction kept_empty (fun _ _ _ _ kept done => kept.step done) history

end Application

end StackSynth
