/-
This file compares the applications that definitions of the same constructs build. A construct has
the number of its place in the order of its definition; so going from places to places renumbers one
application into the other, and the values that constructs have with them.
-/

import StackSynth.Proofs.Definition.Building
import StackSynth.Proofs.Definition.Reordering
import StackSynth.Proofs.Synthesis.Renumbering

namespace StackSynth

open Outcome

namespace Definition

variable {number : NodeId ≃ NodeId} {surroundings : Surroundings} {scope : Scope}
  {items : List Item} {item : Item} {node : NodeId}

/-! ### Children -/

/-- The places of all items of a list without repetitions come in order. -/
theorem map_idxOf {paths : List String} (nodup : paths.Nodup) :
    paths.map paths.idxOf = List.range paths.length := by
  refine List.ext_getElem (by simp) fun place within _ => ?_
  rw [List.length_map] at within
  rw [List.getElem_map, List.getElem_range, nodup.idxOf_getElem place within]

/-- A construct has the number of its path among all paths. -/
theorem Scope.Holds.idxOf_eq {shape : Item → Construct → Prop} {path : String}
    (holds : scope.Holds shape items) (knows : scope.paths.get? path = some node) :
    (allPaths items).idxOf path = node := by
  have knowsToo := (holds.known path _).mpr
    (List.getElem?_idxOf (holds.mem_allPaths_of_known knows))
  rw [knows] at knowsToo
  exact (Option.some.inj knowsToo).symm

/-- The children of a construct are those that have its path as their scope. -/
theorem Scope.Holds.children {shape : Item → Construct → Prop} {path : String}
    (holds : scope.Holds shape items) (knows : scope.paths.get? path = some node) :
    scope.app.tree.children node = (items.filter fun item => item.scope = path).map
      fun item => (allPaths items).idxOf item.path := by
  have childIff : ∀ item ∈ items,
      (node < (allPaths items).idxOf item.path &&
        scope.app.tree.parent? ((allPaths items).idxOf item.path) = some node) =
          decide (item.scope = path) := by
    intro item listed
    obtain ⟨child, knowsChild⟩ := holds.known_item listed
    obtain ⟨around, _, atScope, _, place⟩ := holds.placed item listed child knowsChild
    have parentOfChild : scope.app.tree.parent? child = some around := by
      rw [Tree.parent?, place]
      rfl
    rw [holds.idxOf_eq knowsChild, Bool.eq_iff_iff, Bool.and_eq_true, decide_eq_true_eq,
      decide_eq_true_eq, decide_eq_true_eq, parentOfChild, Option.some.injEq]
    constructor
    · rintro ⟨_, rfl⟩
      exact holds.path_unique atScope knows
    · rintro rfl
      rw [atScope] at knows
      cases knows
      exact ⟨holds.wellFormed.ordered.older parentOfChild, rfl⟩
  have rootIsNoChild : ¬(node < (allPaths items).idxOf "" &&
      scope.app.tree.parent? ((allPaths items).idxOf "") = some node) = true := by
    have atRoot : (allPaths items).idxOf "" = 0 := List.idxOf_cons_self
    rw [atRoot, Bool.and_eq_true, decide_eq_true_eq]
    exact fun both => Nat.not_lt_zero node both.1
  rw [Tree.children, holds.size, ← map_idxOf holds.nodup, List.filter_map]
  show List.map _ (("" :: items.map Item.path).filter _) = _
  rw [List.filter_cons_of_neg (by exact rootIsNoChild), List.filter_map, List.map_map]
  exact congrArg (List.map _) (List.filter_congr childIff)

/-! ### Values -/

theorem renumberMembers_set {name : String} {value : Deferred}
    {members : List (String × Deferred)} :
    Deferred.renumberMembers number (Fields.set name value members) =
      Fields.set name (value.renumber number) (Deferred.renumberMembers number members) := by
  induction members with
  | nil => rfl
  | cons member rest inductionHypothesis =>
    obtain ⟨other, old⟩ := member
    rw [Fields.set, Deferred.renumberMembers, Fields.set]
    split
    · rfl
    · rw [Deferred.renumberMembers, inductionHypothesis]

/-- Properties that are assigned have their values renumbered with them. -/
theorem renumber_assigned {values : List (String × Deferred)} :
    ∀ {resource : Resource}, (Construct.resource (assigned values resource)).renumber number =
      .resource (assigned (Deferred.renumberMembers number values)
        { resource with properties := Deferred.renumberMembers number resource.properties }) := by
  induction values with
  | nil => exact rfl
  | cons property rest inductionHypothesis =>
    intro resource
    obtain ⟨name, value⟩ := property
    rw [assigned, List.foldl_cons, ← assigned, inductionHypothesis, Deferred.renumberMembers,
      assigned, assigned, List.foldl_cons, Resource.setProperty, Resource.setProperty]
    dsimp only
    rw [renumberMembers_set]

theorem renumber_of_makes {construct : Construct} (makes : surroundings.Makes item construct)
    (noResource : ∀ type attributes properties,
      item.content ≠ .resource type attributes properties) :
    construct.renumber number = construct := by
  rw [Surroundings.Makes] at makes
  have ofAsset : ∀ {source}, surroundings.asset? source = some construct →
      construct.renumber number = construct := by
    intro source isAsset
    obtain ⟨hash, _, rfl⟩ := Option.map_eq_some_iff.mp isAsset
    rfl
  cases content : item.content with
  | resource type attributes properties => exact absurd content (noResource _ _ _)
  | output value description exported =>
    rw [content] at makes
    cases makes
  | fileAsset source exclude =>
    rw [content] at makes
    exact ofAsset makes
  | imageAsset image =>
    rw [content] at makes
    exact ofAsset makes
  | _ =>
    rw [content] at makes
    cases makes
    rfl

/-- What becomes of a construct in one definition is what becomes of it in the other, with the
numbers there. -/
theorem Surroundings.Realizes.renumber {first second : Definition} {construct other : Construct}
    (shows : ∀ {scope other : Scope}, first.Sees surroundings scope →
      second.Sees surroundings other → scope.Shows number other)
    (realizes : surroundings.Realizes (first.Sees surroundings) item construct)
    (realizesToo : surroundings.Realizes (second.Sees surroundings) item other) :
    other = construct.renumber number := by
  cases realizes with
  | resource content sees evaluates =>
    cases realizesToo with
    | resource contentToo seesToo evaluatesToo =>
      rw [content] at contentToo
      cases contentToo
      rw [(shows sees seesToo).memberValues evaluates] at evaluatesToo
      cases evaluatesToo
      rw [renumber_assigned]
      rfl
    | output contentToo => cases content.symm.trans contentToo
    | other noResource => exact absurd content (noResource _ _ _)
  | output content sees evaluates =>
    cases realizesToo with
    | resource contentToo => cases content.symm.trans contentToo
    | output contentToo seesToo evaluatesToo =>
      rw [content] at contentToo
      cases contentToo
      rw [(shows sees seesToo).agrees _ _ _ evaluates] at evaluatesToo
      cases evaluatesToo
      rfl
    | other _ makes =>
      have plain := makes.isOutput
      rw [Item.isOutput, content] at plain
      cases plain
  | other noResource makes =>
    rw [renumber_of_makes makes noResource]
    cases realizesToo with
    | resource contentToo => exact absurd contentToo (noResource _ _ _)
    | output contentToo =>
      have plain := makes.isOutput
      rw [Item.isOutput, contentToo] at plain
      cases plain
    | other _ makesToo => exact Option.some.inj (makesToo.symm.trans makes)

/-! ### The trees -/

namespace Reorders

variable {first second : Definition} {final finalToo : Scope} (reorders : first.Reorders second)
  (stage : first.Stage surroundings first.constructs final)
  (stageToo : second.Stage surroundings second.constructs finalToo)
include reorders stage stageToo

/-- A path leads to the construct of the other number. -/
theorem known_number {path : String} (knows : final.paths.get? path = some node) :
    finalToo.paths.get? path = some (reorders.number stage.nodup node) := by
  have atNode := (stage.known path node).mp knows
  rw [reorders.number_of_getElem? atNode, stageToo.known]
  exact List.getElem?_idxOf (reorders.paths.subset (List.mem_of_getElem? atNode))

theorem number_root : reorders.number stage.nodup Tree.rootId = Tree.rootId := by
  have knowsToo := reorders.known_number stage stageToo stage.known_root
  rw [stageToo.known_root] at knowsToo
  exact (Option.some.inj knowsToo).symm

/-- A node of the first tree has the construct that its number has in the second one. -/
theorem get?_number (enclosed : first.Enclosed) (within : node < final.app.tree.size) :
    finalToo.app.tree.get? (reorders.number stage.nodup node) =
      (final.app.tree.get? node).map (Node.renumber (reorders.number stage.nodup)) := by
  obtain ⟨path, knows⟩ := stage.exists_path within
  have knowsToo := reorders.known_number stage stageToo knows
  rcases mem_allPaths.mp (stage.mem_allPaths_of_known knows) with rfl | ⟨item, listed, rfl⟩
  · rw [stage.known_root] at knows
    cases knows
    rw [reorders.number_root stage stageToo, stage.wellFormed.root, stageToo.wellFormed.root]
    rfl
  · have inFirst := arranged_perm.mem_iff.mp listed
    have inSecond := reorders.same.mem_iff.mp inFirst
    obtain ⟨around, construct, atScope, settles, place⟩ := stage.placed item listed node knows
    obtain ⟨aroundToo, other, atScopeToo, settlesToo, placeToo⟩ :=
      stageToo.placed item (arranged_perm.mem_iff.mpr inSecond) _ knowsToo
    rw [reorders.known_number stage stageToo atScope] at atScopeToo
    cases atScopeToo
    have same : other = construct.renumber (reorders.number stage.nodup) :=
      (settles.1 inFirst).renumber (reorders.shows stage.nodup enclosed) (settlesToo.1 inSecond)
    rw [place, placeToo, same]
    rfl

omit stage stageToo in
/-- Both definitions list the items of a scope in one order. -/
theorem filter_arranged (path : String) :
    (arranged second.constructs).filter (fun item => item.scope = path) =
      (arranged first.constructs).filter (fun item => item.scope = path) := by
  have plain := reorders.siblings path false
  have outputs := reorders.siblings path true
  simp only [arranged, plainOf, outputsOf, List.filter_append, List.filter_filter]
  simp only [Bool.decide_and, Bool.decide_eq_true, Bool.decide_eq_false] at plain outputs
  rw [plain, outputs]

theorem children_number (within : node < final.app.tree.size) :
    finalToo.app.tree.children (reorders.number stage.nodup node) =
      (final.app.tree.children node).map (reorders.number stage.nodup) := by
  obtain ⟨path, knows⟩ := stage.exists_path within
  rw [stage.children knows, stageToo.children (reorders.known_number stage stageToo knows),
    List.map_map]
  show ((arranged second.constructs).filter _).map _ = _
  rw [reorders.filter_arranged path]
  refine List.map_congr_left fun item member => ?_
  obtain ⟨child, knowsChild⟩ := stage.known_item (List.mem_filter.mp member).1
  rw [Function.comp_apply, stage.idxOf_eq knowsChild]
  exact stageToo.idxOf_eq (reorders.known_number stage stageToo knowsChild)

/-- The tree that one definition builds is that of the other with other numbers. -/
theorem tree_renumbers (enclosed : first.Enclosed) :
    final.app.tree.Renumbers (reorders.number stage.nodup) finalToo.app.tree := by
  have sameSize : finalToo.app.tree.size = final.app.tree.size :=
    stageToo.size.trans (reorders.paths.length_eq.symm.trans stage.size.symm)
  have outside : ∀ {node}, final.app.tree.size ≤ node →
      reorders.number stage.nodup node = node := fun far =>
    relocate_of_length_le (stage.size ▸ far)
  constructor
  case root => exact reorders.number_root stage stageToo
  case wellFormed => exact stage.wellFormed
  case wellFormedToo => exact stageToo.wellFormed
  case nodes =>
    intro node
    rcases Nat.lt_or_ge node final.app.tree.size with within | far
    · exact reorders.get?_number stage stageToo enclosed within
    · rw [outside far, Tree.get?_of_size_le far, Tree.get?_of_size_le (sameSize ▸ far)]
      rfl
  case children =>
    intro node
    rcases Nat.lt_or_ge node final.app.tree.size with within | far
    · exact reorders.children_number stage stageToo within
    · have absent : ∀ {tree : Tree}, tree.size ≤ node → tree.children node = [] := fun far =>
        Tree.children_of_get?_none (Tree.get?_of_size_le far)
      rw [outside far, absent far, absent (sameSize ▸ far)]
      rfl

end Reorders

end Definition

end StackSynth
