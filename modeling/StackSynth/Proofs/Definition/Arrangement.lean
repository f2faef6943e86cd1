/-
This file says what the tree of a definition looks like when some of its constructs are there. They
stand in the order in which they were added, each under the construct whose path is the scope of its
own; so a path belongs to one construct only, and where a construct stands among the others is all
that the order of a definition decides.
-/

import Mathlib.Data.List.Nodup
import StackSynth.Definition.Build
import StackSynth.Proofs.Application.Building
import StackSynth.Proofs.Construct.Traversal

namespace StackSynth.Definition

open Outcome

/-! ### Paths -/

/-- The path of the construct around a construct. -/
def Item.scope (item : Item) : String := ((splitAtLast? '/' item.path).getD ("", item.path)).1

/-- The last part of the path of a construct. -/
def Item.id (item : Item) : String := ((splitAtLast? '/' item.path).getD ("", item.path)).2

/-- Whether a construct is an output. -/
def Item.isOutput (item : Item) : Bool :=
  match item.content with
  | .output _ _ _ => true
  | _ => false

/-- The paths of the root and of constructs. -/
def allPaths (items : List Item) : List String := "" :: items.map Item.path

variable {item other : Item} {items : List Item} {path : String}

theorem mem_allPaths : path ∈ allPaths items ↔ path = "" ∨ ∃ item ∈ items, item.path = path := by
  rw [allPaths, List.mem_cons, List.mem_map]

theorem allPaths_append (item : Item) :
    allPaths (items ++ [item]) = allPaths items ++ [item.path] := by
  simp [allPaths]

/-- What stands somewhere in a list with one more member stood there before, or is the last. -/
theorem getElem?_concat_eq_some {α : Type} {values : List α} {last value : α} {place : Nat} :
    (values ++ [last])[place]? = some value ↔
      values[place]? = some value ∨ (place = values.length ∧ value = last) := by
  rcases Nat.lt_trichotomy place values.length with before | rfl | behind
  · rw [List.getElem?_append_left before]
    exact (or_iff_left fun both => Nat.ne_of_lt before both.1).symm
  · simp [eq_comm]
  · have absent : values[place]? = none := List.getElem?_eq_none (Nat.le_of_lt behind)
    have absentToo : (values ++ [last])[place]? = none :=
      List.getElem?_eq_none (by rw [List.length_append]; exact behind)
    simp [absent, absentToo, Nat.ne_of_gt behind]

theorem Item.id_of_empty (isEmpty : item.path = "") : item.id = "" := by
  rw [Item.id, isEmpty]
  rfl

theorem Item.scope_congr (same : item.path = other.path) : item.scope = other.scope := by
  rw [Item.scope, Item.scope, same]

theorem Item.id_congr (same : item.path = other.path) : item.id = other.id := by
  rw [Item.id, Item.id, same]

namespace Scope

/-- A construct is placed by its scope, which is known, and its id, which is not empty. -/
theorem locate_eq_ok {scope : Scope} {around : NodeId} {id : String} :
    scope.locate item.path = .ok (around, id) ↔
      item.id ≠ "" ∧ scope.paths.get? item.scope = some around ∧ item.id = id := by
  rw [Scope.locate, Item.scope, Item.id]
  generalize (splitAtLast? '/' item.path).getD ("", item.path) = parts
  obtain ⟨parent, last⟩ := parts
  dsimp only
  by_cases isEmpty : last = ""
  · rw [if_pos isEmpty]
    simp [isEmpty]
  · rw [if_neg isEmpty]
    cases scope.paths.get? parent with
    | none => simp
    | some node =>
      constructor
      · intro same
        cases same
        exact ⟨isEmpty, rfl, rfl⟩
      · rintro ⟨_, same, rfl⟩
        cases same
        rfl

/-! ### What is there -/

/-- A scope that holds constructs in the order of a list and nothing else, each of them of a certain
shape. -/
structure Holds (shape : Item → Construct → Prop) (items : List Item) (scope : Scope) : Prop where
  wellFormed : scope.app.tree.WellFormed
  size : scope.app.tree.size = (allPaths items).length
  known : ∀ path node, scope.paths.get? path = some node ↔ (allPaths items)[node]? = some path
  placed : ∀ item ∈ items, ∀ node, scope.paths.get? item.path = some node → ∃ around construct,
    scope.paths.get? item.scope = some around ∧ shape item construct ∧
      scope.app.tree.get? node = some ⟨item.id, some around, construct⟩

variable {shape weaker : Item → Construct → Prop} {scope next : Scope} {node : NodeId}

/-- Nothing is there at first but the root. -/
theorem holds_empty : Holds shape [] empty where
  wellFormed := Application.wellFormed_empty
  size := rfl
  known path node := by
    rw [empty, allPaths, List.map_nil, List.getElem?_singleton]
    by_cases isRoot : path = ""
    · rw [isRoot, SortedMap.get?_insert_self]
      by_cases atRoot : node = 0
      · rw [atRoot]
        exact iff_of_true rfl rfl
      · rw [if_neg atRoot]
        exact iff_of_false (fun same => atRoot (Option.some.inj same).symm) nofun
    · rw [SortedMap.get?_insert_of_ne isRoot]
      refine iff_of_false nofun fun same => ?_
      split at same
      · exact isRoot (Option.some.inj same).symm
      · cases same
  placed := nofun

namespace Holds

theorem mono (holds : scope.Holds shape items)
    (weakens : ∀ item ∈ items, ∀ construct, shape item construct → weaker item construct) :
    scope.Holds weaker items where
  wellFormed := holds.wellFormed
  size := holds.size
  known := holds.known
  placed item member node knows := by
    obtain ⟨around, construct, atScope, shaped, place⟩ := holds.placed item member node knows
    exact ⟨around, construct, atScope, weakens item member construct shaped, place⟩

variable (holds : scope.Holds shape items)
include holds

theorem mem_allPaths_of_known (knows : scope.paths.get? path = some node) :
    path ∈ allPaths items :=
  List.mem_of_getElem? ((holds.known path node).mp knows)

theorem exists_node (member : path ∈ allPaths items) :
    ∃ node, scope.paths.get? path = some node := by
  obtain ⟨node, atNode⟩ := List.getElem?_of_mem member
  exact ⟨node, (holds.known path node).mpr atNode⟩

theorem lt_of_known (knows : scope.paths.get? path = some node) : node < scope.app.tree.size := by
  rw [holds.size]
  exact (List.getElem?_eq_some_iff.mp ((holds.known path node).mp knows)).1

theorem exists_path (within : node < scope.app.tree.size) :
    ∃ path, scope.paths.get? path = some node := by
  rw [holds.size] at within
  exact ⟨_, (holds.known _ node).mpr (List.getElem?_eq_getElem within)⟩

theorem known_root : scope.paths.get? "" = some Tree.rootId :=
  (holds.known "" Tree.rootId).mpr rfl

/-- A construct has one path. -/
theorem path_unique {second : String} (knows : scope.paths.get? path = some node)
    (knowsToo : scope.paths.get? second = some node) : path = second := by
  rw [holds.known] at knows knowsToo
  exact Option.some.inj (knows.symm.trans knowsToo)

/-- No path belongs to two constructs. -/
theorem nodup : (allPaths items).Nodup := by
  rw [List.nodup_iff_getElem?_ne_getElem?]
  intro first second less within same
  obtain ⟨path, atSecond⟩ : ∃ path, (allPaths items)[second]? = some path :=
    ⟨_, List.getElem?_eq_getElem within⟩
  have knows := (holds.known path first).mpr (same.trans atSecond)
  rw [(holds.known path second).mpr atSecond] at knows
  exact absurd (Option.some.inj knows) (Nat.ne_of_gt less)

theorem nodup_items : items.Nodup :=
  (List.nodup_cons.mp holds.nodup).2.of_map _

theorem ne_root (member : item ∈ items) : item.path ≠ "" := fun isEmpty =>
  (List.nodup_cons.mp holds.nodup).1 (List.mem_map.mpr ⟨item, member, isEmpty⟩)

/-- Of two constructs with one path, one is the other. -/
theorem eq_of_path (member : item ∈ items) (memberToo : other ∈ items)
    (same : item.path = other.path) : item = other :=
  List.inj_on_of_nodup_map (List.nodup_cons.mp holds.nodup).2 member memberToo same

theorem known_item (member : item ∈ items) : ∃ node, scope.paths.get? item.path = some node :=
  holds.exists_node (mem_allPaths.mpr (.inr ⟨item, member, rfl⟩))

theorem exists_scope (member : item ∈ items) :
    ∃ around, scope.paths.get? item.scope = some around := by
  obtain ⟨node, knows⟩ := holds.known_item member
  obtain ⟨around, _, atScope, _⟩ := holds.placed item member node knows
  exact ⟨around, atScope⟩

theorem node_ne_root (member : item ∈ items) (knows : scope.paths.get? item.path = some node) :
    node ≠ Tree.rootId := by
  rintro rfl
  exact holds.ne_root member (holds.path_unique knows holds.known_root)

theorem usableId (member : item ∈ items) : item.id ≠ "" ∧ '/' ∉ item.id.toList := by
  obtain ⟨node, knows⟩ := holds.known_item member
  obtain ⟨_, _, _, _, place⟩ := holds.placed item member node knows
  exact holds.wellFormed.usableId place (holds.node_ne_root member knows)

/-- No construct stands in itself. -/
theorem scope_ne_path (member : item ∈ items) : item.scope ≠ item.path := by
  intro same
  obtain ⟨node, knows⟩ := holds.known_item member
  obtain ⟨around, _, atScope, _, place⟩ := holds.placed item member node knows
  rw [same, knows] at atScope
  cases atScope
  have isParent : scope.app.tree.parent? node = some node := by
    rw [Tree.parent?, place]
    rfl
  exact Nat.lt_irrefl node (holds.wellFormed.ordered.older isParent)

/-- Of two constructs with one scope and one id, one is the other. -/
theorem eq_of_place (member : item ∈ items) (memberToo : other ∈ items)
    (sameScope : item.scope = other.scope) (sameId : item.id = other.id) : item = other := by
  obtain ⟨node, knows⟩ := holds.known_item member
  obtain ⟨nodeToo, knowsToo⟩ := holds.known_item memberToo
  obtain ⟨around, _, atScope, _, place⟩ := holds.placed item member node knows
  obtain ⟨aroundToo, _, atScopeToo, _, placeToo⟩ := holds.placed other memberToo nodeToo knowsToo
  rw [sameScope, atScopeToo] at atScope
  cases atScope
  have sameNode : node = nodeToo := holds.wellFormed.siblings place placeToo rfl sameId
  subst sameNode
  exact holds.eq_of_path member memberToo (holds.path_unique knows knowsToo)

/-! ### Another construct -/

section Grown

variable {around : NodeId} {construct : Construct}
  (atScope : scope.paths.get? item.scope = some around)
  (admits : scope.app.tree.Admits around item.id construct)
include atScope admits

/-- What is admitted has a new path. -/
theorem not_mem_of_admits : item.path ∉ allPaths items := by
  intro member
  rcases mem_allPaths.mp member with isEmpty | ⟨twin, isTwin, samePath⟩
  · exact admits.notEmpty (Item.id_of_empty isEmpty)
  · obtain ⟨node, knows⟩ := holds.known_item isTwin
    obtain ⟨aroundToo, found, atScopeToo, _, place⟩ := holds.placed twin isTwin node knows
    rw [Item.scope_congr samePath, atScope] at atScopeToo
    cases atScopeToo
    have isChild : node ∈ scope.app.tree.children around := by
      refine (Tree.mem_children_iff holds.wellFormed.ordered).mpr ?_
      rw [Tree.parent?, place]
      rfl
    exact admits.noTwin node isChild _ place (Item.id_congr samePath)

/-- A scope holds a construct more when what is admitted has been added behind all others. -/
theorem grow (shaped : shape item construct)
    (tree : next.app.tree = scope.app.tree.withNew around item.id construct)
    (paths : next.paths = scope.paths.insert item.path scope.app.tree.size) :
    next.Holds shape (items ++ [item]) := by
  have isNew := holds.not_mem_of_admits atScope admits
  have knowsOld : ∀ {path}, path ∈ allPaths items →
      next.paths.get? path = scope.paths.get? path := by
    intro path member
    rw [paths, SortedMap.get?_insert_of_ne]
    rintro rfl
    exact isNew member
  have knowsNew : next.paths.get? item.path = some scope.app.tree.size := by
    rw [paths, SortedMap.get?_insert_self]
  have scopeKnown := (knowsOld (holds.mem_allPaths_of_known atScope)).trans atScope
  constructor
  case wellFormed =>
    rw [tree]
    exact holds.wellFormed.withNew admits
  case size =>
    rw [tree, Tree.size_withNew, holds.size, allPaths_append, List.length_append]
    rfl
  case known =>
    intro path node
    rw [allPaths_append, getElem?_concat_eq_some]
    by_cases atNew : path = item.path
    · rw [atNew, knowsNew, holds.size, Option.some.injEq]
      constructor
      · exact fun same => .inr ⟨same.symm, rfl⟩
      · rintro (old | ⟨last, _⟩)
        · exact absurd (List.mem_of_getElem? old) isNew
        · exact last.symm
    · rw [paths, SortedMap.get?_insert_of_ne atNew, holds.known]
      simp only [atNew, and_false, or_false]
  case placed =>
    intro other member node knows
    rcases List.mem_append.mp member with old | last
    · obtain ⟨aroundToo, found, atScopeToo, shapedToo, place⟩ := holds.placed other old node
        ((knowsOld (mem_allPaths.mpr (.inr ⟨other, old, rfl⟩))).symm.trans knows)
      refine ⟨aroundToo, found,
        (knowsOld (holds.mem_allPaths_of_known atScopeToo)).trans atScopeToo, shapedToo, ?_⟩
      rw [tree, Tree.get?_withNew_of_lt (Tree.lt_of_get? place), place]
    · rw [List.mem_singleton.mp last] at knows ⊢
      rw [knowsNew] at knows
      cases knows
      refine ⟨around, construct, scopeKnown, shaped, ?_⟩
      rw [tree, Tree.get?_withNew_self]

end Grown

end Holds

end Scope

end StackSynth.Definition
