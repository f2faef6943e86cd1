/-
This file shows that building keeps trees well formed. A construct is added behind all others, so
the tree looks the same below it, and only what the new construct itself must satisfy is left to
check; that is what the operations of an application check. Replacing a resource by a resource
leaves a tree that looks the same everywhere.
-/

import StackSynth.Proofs.Construct.WellFormed

namespace StackSynth.Tree

variable {tree grown : Tree} {parent node : NodeId} {id : String} {construct : Construct}

/-- A construct is found exactly where one is. -/
theorem find_eq_ok {found : Node} :
    tree.find node = .ok found ↔ tree.get? node = some found := by
  rw [Tree.find]
  cases tree.get? node with
  | none => exact iff_of_false nofun nofun
  | some other => rw [Except.ok.injEq, Option.some.injEq]

theorem get?_of_lt (within : node < tree.size) : ∃ found, tree.get? node = some found :=
  ⟨tree.nodes[node], Array.getElem?_eq_getElem within⟩

theorem lt_of_get? {found : Node} (place : tree.get? node = some found) : node < tree.size := by
  rw [Tree.get?] at place
  exact (Array.getElem?_eq_some_iff.mp place).1

theorem get?_of_size_le (outside : tree.size ≤ node) : tree.get? node = none :=
  Array.getElem?_eq_none outside

theorem get?_size (tree : Tree) : tree.get? tree.size = none :=
  get?_of_size_le (Nat.le_refl _)

/-- What is not there has no children. -/
theorem children_of_get?_none (absent : tree.get? node = none) : tree.children node = [] := by
  refine List.eq_nil_iff_forall_not_mem.mpr fun child isChild => ?_
  obtain ⟨within, older, _⟩ := mem_children isChild
  obtain ⟨found, place⟩ := get?_of_lt (Nat.lt_trans older within)
  rw [absent] at place
  cases place

theorem mem_children_iff (ordered : tree.Ordered) {child : NodeId} :
    child ∈ tree.children node ↔ tree.parent? child = some node := by
  refine ⟨fun member => (mem_children member).2.2, fun found => ?_⟩
  obtain ⟨place, atChild, _⟩ := parent?_eq_some found
  simpa [children] using ⟨lt_of_get? atChild, ordered.older found, found⟩

/-- Stacks are in the tree. -/
theorem lt_of_isStack (isStack : tree.isStack node = true) : node < tree.size := by
  obtain ⟨_, place, _⟩ := get?_of_isStack isStack
  exact lt_of_get? place

/-! ### One more construct -/

/-- The tree with one more construct. -/
def withNew (tree : Tree) (parent : NodeId) (id : String) (construct : Construct) : Tree :=
  ⟨tree.nodes.push ⟨id, some parent, construct⟩⟩

theorem size_withNew : (tree.withNew parent id construct).size = tree.size + 1 :=
  Array.size_push _

/-- A grown tree holds the new construct behind the old ones. -/
theorem get?_withNew (tree : Tree) (parent : NodeId) (id : String) (construct : Construct)
    (node : NodeId) :
    (tree.withNew parent id construct).get? node =
      if node = tree.size then some ⟨id, some parent, construct⟩ else tree.get? node := by
  rw [withNew, Tree.get?, Tree.get?, Array.getElem?_push]
  rfl

theorem get?_withNew_self (tree : Tree) (parent : NodeId) (id : String) (construct : Construct) :
    (tree.withNew parent id construct).get? tree.size = some ⟨id, some parent, construct⟩ := by
  rw [get?_withNew, if_pos rfl]

theorem get?_withNew_of_lt (within : node < tree.size) :
    (tree.withNew parent id construct).get? node = tree.get? node := by
  rw [get?_withNew, if_neg (Nat.ne_of_lt within)]

/-- What a grown tree holds is the new construct, or was there before. -/
theorem get?_withNew_eq_some {found : Node} :
    (tree.withNew parent id construct).get? node = some found ↔
      node = tree.size ∧ found = ⟨id, some parent, construct⟩ ∨ tree.get? node = some found := by
  rw [get?_withNew]
  by_cases atNew : node = tree.size
  · rw [if_pos atNew, atNew, get?_size, Option.some.injEq]
    exact ⟨fun same => .inl ⟨rfl, same.symm⟩, fun either => either.elim (·.2.symm) nofun⟩
  · rw [if_neg atNew]
    exact ⟨.inr, fun either => either.elim (fun here => absurd here.1 atNew) (fun old => old)⟩

theorem alikeBelow_withNew (tree : Tree) (parent : NodeId) (id : String) (construct : Construct) :
    AlikeBelow tree.size tree (tree.withNew parent id construct) := by
  intro node within
  obtain ⟨found, place⟩ := get?_of_lt within
  exact .inr ⟨found, found, place, (get?_withNew_of_lt within).trans place, .same found⟩

theorem parent?_withNew (tree : Tree) (parent : NodeId) (id : String) (construct : Construct) :
    (tree.withNew parent id construct).parent? tree.size = some parent := by
  rw [Tree.parent?, get?_withNew_self]
  rfl

section New

variable (wellFormed : tree.WellFormed) (older : parent < tree.size)
include wellFormed older

theorem ordered_withNew : (tree.withNew parent id construct).Ordered where
  rootless := by
    rw [← (alikeBelow_withNew tree _ _ _).parent? (lt_of_get? wellFormed.root)]
    exact wellFormed.ordered.rootless
  older := by
    intro node above found
    obtain ⟨place, atNode, isAbove⟩ := parent?_eq_some found
    rcases get?_withNew_eq_some.mp atNode with ⟨rfl, rfl⟩ | old
    · cases isAbove
      exact older
    · refine wellFormed.ordered.older ?_
      rw [Tree.parent?, old]
      exact isAbove

/-- The stack around the new construct is the one its scope belongs to. -/
theorem parentStack?_withNew :
    (tree.withNew parent id construct).parentStack? tree.size = tree.stackOf? parent := by
  rw [parentStack?_of_parent (ordered_withNew wellFormed older)
      (parent?_withNew tree parent id construct),
    (alikeBelow_withNew tree parent id construct).stackOf? wellFormed.ordered older]

/-- The path of the new construct is that of its scope and its id. -/
theorem pathComponents_withNew :
    (tree.withNew parent id construct).pathComponents tree.size =
      tree.pathComponents parent ++ [id] := by
  rw [(alikeBelow_withNew tree parent id construct).pathComponents wellFormed.ordered older]
  exact pathComponents_of_parent (ordered_withNew wellFormed older)
    (get?_withNew_self tree parent id construct) rfl

/-- The name of a new top-level stack is decided by its options, its id and its scope. -/
theorem stackName_withNew (options : StackOptions) :
    (tree.withNew parent id (.topLevelStack options)).stackName tree.size =
      match options.name with
      | some name => name
      | none => if parent = rootId then id
        else Naming.uniqueId (tree.pathComponents parent ++ [id]) := by
  rw [stackName, get?_withNew_self, uniqueId, pathComponents_withNew wellFormed older]
  cases named : options.name <;> simp only [named, Option.some.injEq]

end New

/-! ### Where a construct may stand -/

/-- What the new construct must satisfy where it stands. -/
structure MayStand (tree : Tree) (parent : NodeId) (id : String) (construct : Construct) :
    Prop where
  inside : construct.needsStack = true → ∃ stack, tree.stackOf? parent = some stack
  outside : ∀ options, construct = .topLevelStack options → tree.stackOf? parent = none
  named : ∀ options, construct = .topLevelStack options → Naming.isStackName
    (match options.name with
      | some name => name
      | none => if parent = rootId then id
        else Naming.uniqueId (tree.pathComponents parent ++ [id])) = true

/-- What is asked of a new construct and of the place where it is added. -/
structure Admits (tree : Tree) (parent : NodeId) (id : String) (construct : Construct) : Prop where
  notEmpty : id ≠ ""
  noSlash : '/' ∉ id.toList
  scope : parent < tree.size
  noTwin : ∀ child ∈ tree.children parent, ∀ found, tree.get? child = some found → found.id ≠ id
  mayStand : tree.MayStand parent id construct

/-- Where a stack is around, all but a top-level stack may stand. -/
theorem mayStand_of_stackOf? {stack : NodeId} (around : tree.stackOf? parent = some stack)
    (noTopLevel : ∀ options, construct ≠ .topLevelStack options) :
    tree.MayStand parent id construct where
  inside _ := ⟨stack, around⟩
  outside options same := absurd same (noTopLevel options)
  named options same := absurd same (noTopLevel options)

/-- What is checked of the id of a new construct, and where the construct ends up. -/
theorem add_eq_ok :
    tree.add parent id construct = .ok (node, grown) ↔
      id ≠ "" ∧ '/' ∉ id.toList ∧ parent < tree.size ∧
        (∀ child ∈ tree.children parent, ∀ found, tree.get? child = some found → found.id ≠ id) ∧
        node = tree.size ∧ grown = tree.withNew parent id construct := by
  have noTwin : ¬((tree.children parent).any fun child =>
      (tree.get? child).any fun found => found.id = id) = true ↔
      ∀ child ∈ tree.children parent, ∀ found, tree.get? child = some found → found.id ≠ id := by
    simp only [List.any_eq_true, Option.any_eq_true, decide_eq_true_iff, not_exists, not_and,
      ne_eq]
  have scope : (∃ found, tree.find parent = .ok found) ↔ parent < tree.size :=
    ⟨fun ⟨_, found⟩ => lt_of_get? (find_eq_ok.mp found),
      fun within => (get?_of_lt within).imp fun _ => find_eq_ok.mpr⟩
  simp only [add, Outcome.check_eq_ok, Outcome.bind_eq_ok, Outcome.pure_eq_ok, exists_and_right,
    noTwin, scope, List.contains_iff_mem, Prod.mk.injEq, eq_comm (a := tree.size),
    eq_comm (b := grown), withNew, ne_eq]

theorem admits_of_add (mayStand : tree.MayStand parent id construct)
    (added : tree.add parent id construct = .ok (node, grown)) :
    tree.Admits parent id construct ∧ node = tree.size ∧
      grown = tree.withNew parent id construct := by
  obtain ⟨notEmpty, noSlash, scope, noTwin, atEnd, same⟩ := add_eq_ok.mp added
  exact ⟨⟨notEmpty, noSlash, scope, noTwin, mayStand⟩, atEnd, same⟩

namespace Admits

variable (admits : tree.Admits parent id construct)
include admits

theorem add : tree.add parent id construct = .ok (tree.size, tree.withNew parent id construct) :=
  add_eq_ok.mpr ⟨admits.notEmpty, admits.noSlash, admits.scope, admits.noTwin, rfl, rfl⟩

/-- The constructs of a scope have other ids than the one that is admitted there. -/
theorem id_ne (ordered : tree.Ordered) {found : Node} (place : tree.get? node = some found)
    (sibling : found.parent = some parent) : found.id ≠ id := by
  have child : tree.parent? node = some parent := by
    rw [Tree.parent?, place]
    exact sibling
  exact admits.noTwin node ((mem_children_iff ordered).mpr child) found place

end Admits

/-- A tree stays well formed when what it admits is added. -/
theorem WellFormed.withNew (wellFormed : tree.WellFormed)
    (admits : tree.Admits parent id construct) :
    (tree.withNew parent id construct).WellFormed := by
  have older := admits.scope
  have ordered := wellFormed.ordered
  have alike := alikeBelow_withNew tree parent id construct
  constructor
  case root => exact get?_withNew_eq_some.mpr (.inr wellFormed.root)
  case parented =>
    intro node found place notRoot
    rcases get?_withNew_eq_some.mp place with ⟨rfl, rfl⟩ | old
    · exact ⟨parent, rfl, older⟩
    · exact wellFormed.parented old notRoot
  case usableId =>
    intro node found place notRoot
    rcases get?_withNew_eq_some.mp place with ⟨rfl, rfl⟩ | old
    · exact ⟨admits.notEmpty, admits.noSlash⟩
    · exact wellFormed.usableId old notRoot
  case siblings =>
    intro first second firstNode secondNode firstPlace secondPlace sameParent sameId
    rcases get?_withNew_eq_some.mp firstPlace with ⟨rfl, rfl⟩ | firstOld <;>
      rcases get?_withNew_eq_some.mp secondPlace with ⟨rfl, rfl⟩ | secondOld
    · rfl
    · exact absurd sameId.symm (admits.id_ne ordered secondOld sameParent.symm)
    · exact absurd sameId (admits.id_ne ordered firstOld sameParent)
    · exact wellFormed.siblings firstOld secondOld sameParent sameId
  case outermost =>
    intro node found options place shape
    rcases get?_withNew_eq_some.mp place with ⟨rfl, rfl⟩ | old
    · cases shape
      rw [parentStack?_withNew wellFormed older, stackName_withNew wellFormed older]
      exact ⟨admits.mayStand.outside options rfl, admits.mayStand.named options rfl⟩
    · rw [← alike.parentStack? ordered (lt_of_get? old), ← alike.stackName ordered (lt_of_get? old)]
      exact wellFormed.outermost old shape
  case enclosed =>
    intro node found place needsStack
    rcases get?_withNew_eq_some.mp place with ⟨rfl, rfl⟩ | old
    · rw [parentStack?_withNew wellFormed older]
      exact admits.mayStand.inside needsStack
    · rw [← alike.parentStack? ordered (lt_of_get? old)]
      exact wellFormed.enclosed old needsStack

/-! ### Replacing a resource -/

theorem get?_replace (tree : Tree) (node other : NodeId) (construct : Construct) :
    (tree.replace node construct).get? other =
      (tree.get? other).map (fun old =>
        if node = other then { old with construct := construct } else old) := by
  rw [Tree.get?, Tree.get?, replace, Array.getElem?_modify]
  split <;> simp

/-- A tree in which a resource was replaced by a resource looks the same. -/
theorem alikeBelow_replace {found : Node} {first second : Resource}
    (place : tree.get? node = some found) (shape : found.construct = .resource first)
    (bound : Nat) : AlikeBelow bound tree (tree.replace node (.resource second)) := by
  intro other _
  cases atOther : tree.get? other with
  | none => exact .inl ⟨rfl, by rw [get?_replace, atOther]; rfl⟩
  | some old =>
    refine .inr ⟨old, _, rfl, by rw [get?_replace, atOther]; rfl, ?_⟩
    by_cases here : node = other
    · subst here
      dsimp only
      rw [if_pos rfl]
      rw [place] at atOther
      cases atOther
      obtain ⟨id, parent, construct⟩ := found
      cases shape
      exact .resource id parent first second
    · dsimp only
      rw [if_neg here]
      exact .same old

/-- A tree stays well formed when it keeps its looks. -/
theorem WellFormed.of_alike (wellFormed : tree.WellFormed)
    (root : grown.get? rootId = some ⟨"", none, .root⟩)
    (alike : ∀ bound, AlikeBelow bound tree grown) : grown.WellFormed := by
  have looks : ∀ {node found}, grown.get? node = some found →
      ∃ old, tree.get? node = some old ∧ LooksLike old found := by
    intro node found place
    rcases alike (node + 1) node (Nat.lt_succ_self node) with
      ⟨_, absent⟩ | ⟨old, new, atOld, atNew, same⟩
    · rw [absent] at place
      cases place
    · rw [atNew] at place
      cases place
      exact ⟨old, atOld, same⟩
  have within := fun node : NodeId => Nat.lt_succ_self node
  have ordered := wellFormed.ordered
  constructor
  case root => exact root
  case parented =>
    intro node found place notRoot
    obtain ⟨old, atOld, same⟩ := looks place
    rw [← same.parent]
    exact wellFormed.parented atOld notRoot
  case usableId =>
    intro node found place notRoot
    obtain ⟨old, atOld, same⟩ := looks place
    rw [← same.id]
    exact wellFormed.usableId atOld notRoot
  case siblings =>
    intro first second firstNode secondNode firstPlace secondPlace sameParent sameId
    obtain ⟨firstOld, atFirst, firstSame⟩ := looks firstPlace
    obtain ⟨secondOld, atSecond, secondSame⟩ := looks secondPlace
    rw [← firstSame.parent, ← secondSame.parent] at sameParent
    rw [← firstSame.id, ← secondSame.id] at sameId
    exact wellFormed.siblings atFirst atSecond sameParent sameId
  case outermost =>
    intro node found options place shape
    obtain ⟨old, atOld, same⟩ := looks place
    rw [← (alike (node + 1)).parentStack? ordered (within node),
      ← (alike (node + 1)).stackName ordered (within node)]
    exact wellFormed.outermost atOld (same.options.mpr shape)
  case enclosed =>
    intro node found place needsStack
    obtain ⟨old, atOld, same⟩ := looks place
    rw [← (alike (node + 1)).parentStack? ordered (within node)]
    exact wellFormed.enclosed atOld (same.needsStack.trans needsStack)

/-- A tree stays well formed when a resource is replaced by a resource. -/
theorem WellFormed.replace {found : Node} {first second : Resource}
    (wellFormed : tree.WellFormed) (place : tree.get? node = some found)
    (shape : found.construct = .resource first) :
    (tree.replace node (.resource second)).WellFormed := by
  refine wellFormed.of_alike ?_ (alikeBelow_replace place shape)
  have notHere : node ≠ rootId := by
    rintro rfl
    rw [wellFormed.root] at place
    cases place
    cases shape
  rw [get?_replace, wellFormed.root, Option.map_some, if_neg notHere]

end StackSynth.Tree
