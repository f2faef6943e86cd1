/-
This file holds the tree of constructs as it is stored: each construct together with the numbers of
its children, which grow when a construct is added. Reading the construct of a number that is
stored with another one may fault, and so may adding to the list of a parent. What is stored is
always what the tree says, so neither does; and a walk that keeps a list of what it has yet to meet
comes to its end with what the tree has below its start.
-/

import Mathlib.Logic.Function.Iterate
import StackSynth.Proofs.Application.History
import StackSynth.Proofs.Naming.Cutting

namespace StackSynth

open Guarded Outcome

/-- A construct as it is stored. -/
structure Cell where
  node : Node
  children : List NodeId

/-- The constructs of an application as they are stored, the root first. -/
structure Arena where
  cells : Array Cell

/-- A walk under way. -/
structure Walk where
  met : List NodeId
  pending : List NodeId

/-- A call that changes a tree. -/
inductive TreeCall where
  | add (parent : NodeId) (id : String) (construct : Construct)
  | replace (node : NodeId) (construct : Construct)

namespace Arena

variable {arena : Arena} {node : NodeId}

/-- Arenas that store the same under every number are one. -/
theorem ext_get? {first second : Arena}
    (same : ∀ node : NodeId, first.cells[node]? = second.cells[node]?) : first = second :=
  congrArg mk (Array.ext_getElem? same)

/-- The arena that holds only the root. -/
def empty : Arena := ⟨#[⟨⟨"", none, .root⟩, []⟩]⟩

/-- The tree without the lists of children. -/
def tree (arena : Arena) : Tree := ⟨arena.cells.map Cell.node⟩

/-- The children that are stored with a construct. -/
def children (arena : Arena) (node : NodeId) : List NodeId :=
  match arena.cells[node]? with
  | some cell => cell.children
  | none => []

/-- Whether one of the children of a construct has an id. -/
def hasTwin (arena : Arena) (siblings : List NodeId) (id : String) : Guarded Bool :=
  siblings.anyM fun child => do return decide ((← known arena.cells[child]?).node.id = id)

/-- Stores a construct behind all others and in the list of its parent. -/
def store (arena : Arena) (parent : NodeId) (id : String) (construct : Construct) :
    Guarded (NodeId × Arena) := do
  let node := arena.cells.size
  let cells := arena.cells.push ⟨⟨id, some parent, construct⟩, []⟩
  let scope ← known cells[parent]?
  let listing := { scope with children := scope.children ++ [node] }
  return (node, ⟨cells.setIfInBounds parent listing⟩)

/-- Adds a construct if its id is usable and its parent has no child of that id. -/
def add (arena : Arena) (parent : NodeId) (id : String) (construct : Construct) :
    Guarded (Except ConstructError (NodeId × Arena)) :=
  if id = "" then return .error .emptyId
  else if id.toList.contains '/' then return .error (.slashInId id)
  else
    match arena.cells[parent]? with
    | none => return .error (.unknownConstruct parent)
    | some scope => do
      if ← arena.hasTwin scope.children id then
        return .error (.duplicateId (arena.tree.path parent) id)
      return .ok (← arena.store parent id construct)

/-- Puts another construct in the place of an existing one. -/
def replace (arena : Arena) (node : NodeId) (construct : Construct) : Arena :=
  ⟨arena.cells.modify node fun old => { old with node := { old.node with construct := construct } }⟩

/-- The arena after a call; one that is refused leaves nothing behind. -/
def call (arena : Arena) : TreeCall → Guarded Arena
  | .add parent id construct => do
    match ← arena.add parent id construct with
    | .ok (_, grown) => return grown
    | .error _ => return arena
  | .replace node construct => return arena.replace node construct

/-- The name that a stack is deployed under. -/
def stackName (arena : Arena) (stack : NodeId) : Guarded String :=
  match arena.cells[stack]? with
  | some ⟨⟨_, parent, .topLevelStack options⟩, _⟩ =>
    match options.name with
    | some name => return name
    | none =>
      if parent = some Tree.rootId then do return (← known arena.cells[stack]?).node.id
      else Naming.guardedUniqueId (arena.tree.pathComponents stack)
  | _ => Naming.guardedUniqueId (arena.tree.pathComponents stack)

/-- One turn of a walk downwards. What comes next stands last; it is met, and if it is entered its
children come next, the first of them at once. When nothing is pending the walk stands still. -/
def turn (arena : Arena) (descends : NodeId → Bool) (walk : Walk) : Walk :=
  match walk.pending.getLast? with
  | none => walk
  | some node =>
    let entered := if descends node then (arena.children node).reverse else []
    ⟨walk.met ++ [node], walk.pending.dropLast ++ entered⟩

/-- A walk comes to its end: after one turn for each construct that it meets nothing is pending. -/
def WalksTo (arena : Arena) (descends : NodeId → Bool) (start : NodeId) (met : List NodeId) :
    Prop :=
  (arena.turn descends)^[met.length] ⟨[], [start]⟩ = ⟨met, []⟩

end Arena

namespace Tree

variable {tree : Tree} {node parent : NodeId} {id : String} {construct : Construct}

/-- The tree after a call. -/
def call (tree : Tree) : TreeCall → Tree
  | .add parent id construct =>
    match tree.add parent id construct with
    | .ok (_, grown) => grown
    | .error _ => tree
  | .replace node construct => tree.replace node construct

/-- The arena that stores a tree. -/
def arena (tree : Tree) : Arena :=
  ⟨tree.nodes.mapIdx fun place node => ⟨node, tree.children place⟩⟩

/-- Some calls make a tree, and none of them faults on the way to the arena that stores it. -/
def Stored (tree : Tree) : Prop :=
  ∃ calls : List TreeCall, calls.foldl call empty = tree ∧
    calls.foldlM Arena.call .empty = .ok tree.arena

theorem cells_arena (tree : Tree) (node : NodeId) :
    tree.arena.cells[node]? =
      (tree.get? node).map fun found => ⟨found, tree.children node⟩ :=
  Array.getElem?_mapIdx

theorem size_arena (tree : Tree) : tree.arena.cells.size = tree.size := Array.size_mapIdx

@[simp] theorem tree_arena (tree : Tree) : tree.arena.tree = tree := by
  have same : (tree.arena.cells.map Cell.node) = tree.nodes := by
    refine Array.ext_getElem? fun place => ?_
    rw [Array.getElem?_map, cells_arena, Option.map_map]
    exact Option.map_id'
  rw [Arena.tree, same]

@[simp] theorem children_arena (tree : Tree) (node : NodeId) :
    tree.arena.children node = tree.children node := by
  rw [Arena.children, cells_arena]
  cases found : tree.get? node with
  | none => exact (children_of_get?_none found).symm
  | some place => rfl

/-! ### Calls -/

/-- A new construct is stored behind all others and comes to the list of its parent. -/
theorem arena_withNew {scope : Node} (place : tree.get? parent = some scope) :
    (tree.withNew parent id construct).arena =
      ⟨(tree.arena.cells.push ⟨⟨id, some parent, construct⟩, []⟩).setIfInBounds parent
        ⟨scope, tree.children parent ++ [tree.size]⟩⟩ := by
  have older := lt_of_get? place
  refine Arena.ext_get? fun other => ?_
  rw [cells_arena, get?_withNew, children_withNew older, Array.getElem?_setIfInBounds,
    Array.getElem?_push, cells_arena, size_arena, Array.size_push, size_arena]
  by_cases atNew : other = tree.size
  · subst atNew
    have notParent : parent ≠ tree.size := Nat.ne_of_lt older
    simp [notParent, notParent.symm, children_of_get?_none (get?_size tree)]
  · rw [if_neg atNew, if_neg atNew]
    by_cases atParent : parent = other
    · subst atParent
      simp [place, Nat.lt_succ_of_lt older]
    · simp [atParent, Ne.symm atParent]

/-- The children of a construct can all be looked up. -/
theorem hasTwin_arena (tree : Tree) (parent : NodeId) (id : String) :
    tree.arena.hasTwin (tree.children parent) id =
      .ok ((tree.children parent).any fun child =>
        (tree.get? child).any fun node => node.id = id) := by
  refine anyM_eq_ok fun child isChild => ?_
  obtain ⟨found, atChild⟩ := get?_of_lt (mem_children isChild).1
  rw [cells_arena, atChild]
  rfl

/-- The parent of a new construct can still be looked up behind it. -/
theorem store_arena {scope : Node} (place : tree.get? parent = some scope) :
    tree.arena.store parent id construct =
      .ok (tree.size, (tree.withNew parent id construct).arena) := by
  have older : parent ≠ tree.size := Nat.ne_of_lt (lt_of_get? place)
  rw [Arena.store, Array.getElem?_push, size_arena, if_neg older, cells_arena, place,
    arena_withNew place]
  rfl

/-- Adding to what stores a tree does not fault, whatever is added and wherever. -/
theorem add_arena (tree : Tree) (parent : NodeId) (id : String) (construct : Construct) :
    tree.arena.add parent id construct =
      .ok ((tree.add parent id construct).map fun added => (added.1, added.2.arena)) := by
  rw [Arena.add, Tree.add]
  by_cases isEmpty : id = ""
  · simp only [if_pos isEmpty]
    rfl
  by_cases hasSlash : id.toList.contains '/' = true
  · simp only [if_neg isEmpty, if_pos hasSlash]
    rfl
  simp only [if_neg isEmpty, if_neg hasSlash, cells_arena, find]
  cases place : tree.get? parent with
  | none => rfl
  | some scope =>
    simp only [Option.map_some, hasTwin_arena, ok_bind, store_arena place, tree_arena]
    split <;> rfl

/-- Another construct in its place leaves all lists of children alone. -/
theorem replace_arena (tree : Tree) (node : NodeId) (construct : Construct) :
    tree.arena.replace node construct = (tree.replace node construct).arena := by
  refine Arena.ext_get? fun other => ?_
  rw [cells_arena, get?_replace, Application.children_replace, Arena.replace,
    Array.getElem?_modify, cells_arena]
  cases tree.get? other with
  | none => simp
  | some found =>
    simp only [Option.map_some]
    split <;> rfl

theorem call_arena (tree : Tree) (call : TreeCall) :
    tree.arena.call call = .ok (tree.call call).arena := by
  cases call with
  | add parent id construct =>
    rw [Arena.call, Tree.call, add_arena, ok_bind]
    cases tree.add parent id construct <;> rfl
  | replace node construct =>
    rw [Arena.call, replace_arena]
    rfl

/-- The name of a stack is looked up without a fault, whatever number is asked for. -/
theorem stackName_arena (tree : Tree) (stack : NodeId) :
    tree.arena.stackName stack = .ok (tree.stackName stack) := by
  rw [Arena.stackName, Tree.stackName, tree_arena, cells_arena, Naming.guardedUniqueId_eq]
  cases tree.get? stack with
  | none => rfl
  | some found =>
    obtain ⟨id, parent, construct⟩ := found
    cases construct with
    | topLevelStack options =>
      simp only [Option.map_some, known, ok_bind]
      cases options.name with
      | some name => rfl
      | none =>
        simp only
        split <;> rfl
    | _ => rfl

/-! ### All of a history -/

theorem arena_empty : empty.arena = .empty := by
  refine Arena.ext_get? fun node => ?_
  rw [cells_arena]
  cases node with
  | zero => rfl
  | succ node => rfl

/-- No call of a sequence faults, and what is stored behind it is what the tree says. -/
theorem calls_arena (tree : Tree) (calls : List TreeCall) :
    calls.foldlM Arena.call tree.arena = .ok (calls.foldl call tree).arena := by
  induction calls generalizing tree with
  | nil => rfl
  | cons first rest inductionHypothesis =>
    rw [List.foldlM_cons, call_arena, ok_bind, List.foldl_cons, inductionHypothesis]

theorem stored_of_calls {calls : List TreeCall} (made : calls.foldl call empty = tree) :
    tree.Stored :=
  ⟨calls, made, by rw [← arena_empty, calls_arena, made]⟩

theorem Stored.call (stored : tree.Stored) (call : TreeCall) : (tree.call call).Stored := by
  obtain ⟨calls, made, _⟩ := stored
  exact stored_of_calls (by rw [List.foldl_concat, made] : (calls ++ [call]).foldl _ _ = _)

/-- Every tree is stored without a fault by the steps that build it. -/
theorem stored_assembled (history : List (Asset.Bundler × BuildStep)) :
    (Application.assembled history).tree.Stored := by
  refine @Application.assembled_induction (fun app => app.tree.Stored)
    (@stored_of_calls _ [] rfl) ?_ history
  intro bundler app step next stored done
  have ofAdd : ∀ {scope node id construct},
      app.tree.add scope id construct = .ok (node, next.tree) → next.tree.Stored := by
    intro scope node id construct added
    have made : app.tree.call (.add scope id construct) = next.tree := by rw [call, added]
    exact made ▸ stored.call _
  cases Application.change_of_step done with
  | grown _ _ _ added _ => exact ofAdd added
  | registered _ _ _ added _ => exact ofAdd added
  | replaced _ _ tree _ => exact tree ▸ stored.call (.replace _ _)

/-! ### Walks -/

/-- What comes next is met, and its children come next. -/
theorem turn_arena (descends : NodeId → Bool) (start : NodeId) (met pending : List NodeId) :
    tree.arena.turn descends ⟨met, pending ++ [start]⟩ =
      ⟨met ++ [start],
        pending ++ (if descends start then tree.children start else []).reverse⟩ := by
  rw [Arena.turn, List.getLast?_concat]
  simp only [List.dropLast_concat, children_arena]
  split <;> rfl

/-- A walk meets, before it goes on with what was pending, all that the tree has below what comes
next. -/
theorem turns_arena (descends : NodeId → Bool) (start : NodeId) (met pending : List NodeId) :
    (tree.arena.turn descends)^[(tree.below descends start).length] ⟨met, pending ++ [start]⟩ =
      ⟨met ++ tree.below descends start, pending⟩ := by
  induction start using below.induct tree generalizing met pending with
  | case1 start inductionHypothesis =>
    -- the children that are pending are met one after the other, the first of them first
    have onwards : ∀ children : List NodeId, (∀ child ∈ children, child ∈ tree.children start) →
        ∀ met, (tree.arena.turn descends)^[(children.flatMap (tree.below descends)).length]
            ⟨met, pending ++ children.reverse⟩ =
          ⟨met ++ children.flatMap (tree.below descends), pending⟩ := by
      intro children areChildren
      induction children with
      | nil => exact fun met => by simp
      | cons child rest goOn =>
        intro met
        rw [List.flatMap_cons, List.length_append, Nat.add_comm, Function.iterate_add_apply,
          List.reverse_cons, ← List.append_assoc,
          inductionHypothesis ⟨child, areChildren child List.mem_cons_self⟩,
          goOn fun other member => areChildren other (List.mem_cons_of_mem _ member),
          List.append_assoc]
    cases enters : descends start with
    | false =>
      rw [below_of_not_descends enters, List.length_singleton, Function.iterate_one, turn_arena,
        enters, if_neg Bool.false_ne_true, List.reverse_nil, List.append_nil]
    | true =>
      rw [below_of_descends enters, List.length_cons, Function.iterate_succ_apply, turn_arena,
        enters, if_pos rfl, onwards _ fun _ isChild => isChild, List.append_assoc,
        List.singleton_append]

/-- A walk comes to its end, with what the tree has below its start. -/
theorem walksTo_below (tree : Tree) (descends : NodeId → Bool) (start : NodeId) :
    tree.arena.WalksTo descends start (tree.below descends start) :=
  turns_arena descends start [] []

end Tree

end StackSynth
