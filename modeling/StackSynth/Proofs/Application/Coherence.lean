/-
This file states what holds of an application at any time of its construction, whatever was tried
with it: the tree hangs together from its root, every construct has a place and a path of its own,
the lists of children that are stored with constructs are those of the tree, stacks stand where they
can be deployed, what a template holds finds the stacks around it, and every asset is registered
where its template looks for it.
-/

import StackSynth.Proofs.Construct.Arena

namespace StackSynth

open Outcome

/-! ### The stacks around a construct -/

namespace Tree.WellFormed

variable {tree : Tree} {node : NodeId} {found : Node} (wellFormed : tree.WellFormed)
include wellFormed

/-- What must stand in a stack belongs to one, and to a top-level stack that says where it is
deployed. -/
theorem surrounded (place : tree.get? node = some found)
    (needsStack : found.construct.needsStack = true) :
    ∃ own top outer options, tree.stackOf? node = some own ∧ tree.topLevelOf? node = some top ∧
      tree.get? top = some outer ∧ outer.construct = .topLevelStack options ∧
      tree.environment node = .ok options.environment := by
  obtain ⟨own, belongs⟩ : ∃ own, tree.stackOf? node = some own := by
    cases isStack : tree.isStack node with
    | true => exact ⟨node, wellFormed.stackOf?_stack isStack⟩
    | false =>
      rw [stackOf?_of_not_isStack isStack]
      exact wellFormed.enclosed place needsStack
  obtain ⟨top, outermost⟩ := wellFormed.exists_topLevelOf? (isStack_of_stackOf? belongs)
  rw [← wellFormed.topLevelOf?_of_stackOf? belongs] at outermost
  obtain ⟨isStack, alone⟩ := wellFormed.outermost_of_topLevelOf? outermost
  obtain ⟨outer, atTop, _⟩ := get?_of_isStack isStack
  obtain ⟨options, shape⟩ : ∃ options, outer.construct = .topLevelStack options := by
    have notNested := wellFormed.isNested_of_outermost isStack alone
    rw [Tree.isStack, atTop] at isStack
    rw [Tree.isNested, atTop] at notNested
    cases shape : outer.construct with
    | topLevelStack options => exact ⟨options, rfl⟩
    | nestedStack => simp [shape, Construct.isNestedStack] at notNested
    | _ => simp [shape, Construct.isStack] at isStack
  refine ⟨own, top, outer, options, belongs, outermost, atTop, shape, ?_⟩
  obtain ⟨id, parent, construct⟩ := outer
  cases shape
  rw [environment, outermost]
  simp only [atTop]

end Tree.WellFormed

/-- No stack lies around a construct without a parent stack. -/
theorem Tree.not_isStack_above {tree : Tree} {node above : NodeId}
    (outermost : tree.parentStack? node = none) (member : above ∈ (tree.ancestors node).tail) :
    tree.isStack above = false := by
  rw [parentStack?, List.head?_eq_none_iff, List.filter_eq_nil_iff] at outermost
  simpa using outermost above member

namespace Application

/-! ### The invariant -/

/-- The shape of an application under construction. -/
structure Coherent (app : Application) : Prop where
  /-- There is a root, and it is the first construct. -/
  rooted : ∃ found, app.tree.get? Tree.rootId = some found ∧ found.parent = none ∧
    found.construct = .root
  /-- No other construct is a root, nor has it no parent: it has an older one. -/
  parented : ∀ {node found}, app.tree.get? node = some found → node ≠ Tree.rootId →
    found.construct ≠ .root ∧ ∃ parent, found.parent = some parent ∧ parent < node
  /-- A construct is listed once by its parent and by nobody else. -/
  listed : ∀ {node found}, app.tree.get? node = some found → ∀ parent,
    (app.tree.children parent).count node = if found.parent = some parent then 1 else 0
  /-- Children are listed in the order of their creation. -/
  inOrder : ∀ node, (app.tree.children node).Pairwise (· < ·)
  /-- These lists are stored with the constructs, and kept by the calls that make the tree. -/
  stored : app.tree.Stored
  storedListed : ∀ {node found}, app.tree.get? node = some found → ∀ parent,
    (app.tree.arena.children parent).count node = if found.parent = some parent then 1 else 0
  storedInOrder : ∀ node, (app.tree.arena.children node).Pairwise (· < ·)
  /-- A further step lists what it adds behind the other children of its parent, and moves and
  takes away none. -/
  appended : ∀ {bundler step next}, app.step bundler step = .ok next → ∀ node,
    next.tree.children node = app.tree.children node ++
      if next.tree.size = app.tree.size + 1 ∧ next.tree.parent? app.tree.size = some node
      then [app.tree.size] else []
  /-- Only constructs are listed. -/
  present : ∀ {parent child}, child ∈ app.tree.children parent → child < app.tree.size
  usableId : ∀ {node found}, app.tree.get? node = some found → node ≠ Tree.rootId →
    found.id ≠ "" ∧ '/' ∉ found.id.toList
  /-- The children of a construct have different ids. -/
  siblings : ∀ parent, ((app.tree.children parent).filterMap
    (fun child => (app.tree.get? child).map Node.id)).Nodup
  /-- Different constructs have different paths. -/
  paths : ∀ {first second}, first < app.tree.size → second < app.tree.size →
    app.tree.path first = app.tree.path second → first = second
  /-- Top-level stacks lie in no stack and have a name to be deployed under. -/
  topLevel : ∀ {node found options}, app.tree.get? node = some found →
    found.construct = .topLevelStack options →
    (∀ above ∈ (app.tree.ancestors node).tail, app.tree.isStack above = false) ∧
      Naming.isStackName (app.tree.stackName node) = true
  /-- What must stand in a stack has a nearest stack strictly around it. -/
  enclosed : ∀ {node found}, app.tree.get? node = some found →
    found.construct.needsStack = true → ∃ around, app.tree.parentStack? node = some around
  /-- It also belongs to a stack, and to the top-level stack whose environment is
  its own. -/
  surrounded : ∀ {node found}, app.tree.get? node = some found →
    found.construct.needsStack = true →
    ∃ own top outer options, app.tree.stackOf? node = some own ∧
      app.tree.topLevelOf? node = some top ∧ app.tree.get? top = some outer ∧
      outer.construct = .topLevelStack options ∧
      app.tree.environment node = .ok options.environment
  /-- Assets are registered on their top-level stack under their hash. -/
  registered : ∀ {node found hash packaging}, app.tree.get? node = some found →
    found.construct = .asset hash packaging →
    ∃ top record, app.tree.topLevelOf? node = some top ∧
      app.assets.find? top hash = some record

variable {app : Application}

theorem Kept.listed (kept : app.Kept) {node : NodeId} {found : Node}
    (place : app.tree.get? node = some found) (parent : NodeId) :
    (app.tree.children parent).count node = if found.parent = some parent then 1 else 0 := by
  have isParent : app.tree.parent? node = found.parent := by
    rw [Tree.parent?, place, Option.bind_some]
  split
  · rename_i lists
    have member := (Tree.mem_children_iff kept.wellFormed.ordered).mpr (isParent.trans lists)
    rw [(Tree.nodup_children _ _).count, if_pos member]
  · rename_i listsNot
    refine List.count_eq_zero.mpr fun member => listsNot ?_
    exact isParent.symm.trans (Tree.mem_children member).2.2

theorem Kept.siblings (kept : app.Kept) (parent : NodeId) :
    ((app.tree.children parent).filterMap
      (fun child => (app.tree.get? child).map Node.id)).Nodup := by
  refine List.pairwise_filterMap.mpr ((Tree.nodup_children app.tree parent).imp_of_mem ?_)
  rintro first second isFirst isSecond apart firstId atFirst secondId atSecond rfl
  obtain ⟨one, place, sameId⟩ := Option.map_eq_some_iff.mp atFirst
  obtain ⟨other, placeToo, sameIdToo⟩ := Option.map_eq_some_iff.mp atSecond
  refine apart (kept.wellFormed.siblings place placeToo ?_ (sameId.trans sameIdToo.symm))
  have parentOf : ∀ {child found}, app.tree.get? child = some found →
      child ∈ app.tree.children parent → found.parent = some parent := by
    intro child found atChild member
    have above := (Tree.mem_children member).2.2
    rwa [Tree.parent?, atChild] at above
  rw [parentOf place isFirst, parentOf placeToo isSecond]

/-- Every application is coherent at any time of its construction. -/
theorem coherent_assembled (history : List (Asset.Bundler × BuildStep)) :
    (assembled history).Coherent := by
  have kept := kept_assembled history
  have wellFormed := kept.wellFormed
  have inOrder : ∀ node, ((assembled history).tree.children node).Pairwise (· < ·) :=
    fun _ => List.pairwise_lt_range.filter _
  constructor
  case rooted => exact ⟨_, wellFormed.root, rfl, rfl⟩
  case parented =>
    intro node found place notRoot
    exact ⟨fun isRoot => notRoot (kept.oneRoot place isRoot), wellFormed.parented place notRoot⟩
  case listed => exact kept.listed
  case inOrder => exact inOrder
  case stored => exact Tree.stored_assembled history
  case storedListed =>
    intro node found place parent
    rw [Tree.children_arena]
    exact kept.listed place parent
  case storedInOrder =>
    intro node
    rw [Tree.children_arena]
    exact inOrder node
  case appended => exact children_step
  case present => exact fun member => (Tree.mem_children member).1
  case usableId => exact wellFormed.usableId
  case siblings => exact kept.siblings
  case paths => exact wellFormed.path_injective
  case topLevel =>
    intro node found options place shape
    obtain ⟨outermost, named⟩ := wellFormed.outermost place shape
    exact ⟨fun _ member => Tree.not_isStack_above outermost member, named⟩
  case enclosed => exact wellFormed.enclosed
  case surrounded => exact wellFormed.surrounded
  case registered =>
    intro node found hash packaging place shape
    obtain ⟨_, top, _, _, _, outermost, _⟩ := wellFormed.surrounded place (by rw [shape]; rfl)
    obtain ⟨record, known⟩ := kept.registered ⟨top, hash, packaging⟩
      (Tree.mem_assets_of_get? place shape outermost)
    exact ⟨top, record, outermost, known⟩

end Application

end StackSynth
