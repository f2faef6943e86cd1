/-
This file proves what the levels of a directed graph are. While levels are taken away, the number
kept for a node is the number of arrows into it from nodes that still wait: each node that leaves
takes the arrows out of it along. So the nodes that are ready are those with no arrow from a waiting
node, and where none is ready every waiting node has an arrow from another one, which is a cycle.
-/

import Mathlib.Data.List.Count
import StackSynth.Proofs.Deployment.Digraph

namespace StackSynth.StackDigraph

open Relation

variable {graph : StackDigraph} {degrees : SortedMap NodeId Nat} {waits : NodeId → Bool}
  {node other source target : NodeId} {waiting level : List NodeId} {levels : List (List NodeId)}
  {index : Nat}

/-! ### Counting arrows -/

/-- The number of arrows into a node from nodes that wait. -/
def arrowsLeft (graph : StackDigraph) (waits : NodeId → Bool) (target : NodeId) : Nat :=
  graph.arrows.countP (fun arrow => arrow.2 = target && waits arrow.1)

/-- The numbers kept are those of the arrows from nodes that wait. -/
def Counts (graph : StackDigraph) (waits : NodeId → Bool) (degrees : SortedMap NodeId Nat) : Prop :=
  ∀ node ∈ graph.nodes, degrees.get? node = some (graph.arrowsLeft waits node)

theorem get?_lowered (degrees : SortedMap NodeId Nat) (node other : NodeId) :
    (lowered degrees node).get? other =
      if node = other then (degrees.get? other).map (· - 1) else degrees.get? other := by
  by_cases here : node = other
  · subst here
    rw [lowered, if_pos rfl]
    cases found : degrees.get? node with
    | none => exact found
    | some degree => exact SortedMap.get?_insert_self degrees node (degree - 1)
  · rw [lowered, if_neg here]
    split
    · exact SortedMap.get?_insert_of_ne (Ne.symm here)
    · rfl

theorem get?_foldl_lowered (targets : List NodeId) (other : NodeId) :
    ∀ degrees : SortedMap NodeId Nat, (targets.foldl lowered degrees).get? other =
      (degrees.get? other).map (· - targets.count other) := by
  induction targets with
  | nil => simp
  | cons target rest inductionHypothesis =>
    intro degrees
    rw [List.foldl_cons, inductionHypothesis, get?_lowered, List.count_cons]
    by_cases here : target = other
    · subst here
      rw [if_pos rfl, Option.map_map, if_pos (beq_self_eq_true target)]
      congr 1
      funext degree
      exact (Nat.sub_sub degree 1 _).trans (congrArg _ (Nat.add_comm 1 _))
    · rw [if_neg here, if_neg (by simpa using here), Nat.add_zero]

theorem count_successors (graph : StackDigraph) (node target : NodeId) :
    (graph.successors node).count target = graph.arrowsLeft (· = node) target := by
  rw [successors, List.count, List.countP_map, List.countP_filter, arrowsLeft]
  exact List.countP_congr fun arrow _ => by simp

/-- The arrows from a node that waits and from the others are all there are. -/
theorem arrowsLeft_eq_add (isWaiting : waits node = true) :
    graph.arrowsLeft waits target =
      graph.arrowsLeft (fun other => waits other && other ≠ node) target +
        graph.arrowsLeft (· = node) target := by
  rw [arrowsLeft, List.countP_eq_countP_filter_add _ _ (fun arrow => decide (arrow.1 ≠ node)),
    List.countP_filter, List.countP_filter, arrowsLeft, arrowsLeft]
  congr 1
  · exact List.countP_congr fun arrow _ => by simp [and_assoc]
  · refine List.countP_congr fun arrow _ => ?_
    by_cases here : arrow.1 = node <;> simp [here, isWaiting]

/-- A node that leaves takes along the arrows out of it. -/
theorem Counts.release (counts : graph.Counts waits degrees) (isWaiting : waits node = true) :
    graph.Counts (fun other => waits other && other ≠ node) (graph.release degrees node) := by
  intro other isNode
  rw [StackDigraph.release, get?_foldl_lowered, counts other isNode, count_successors,
    arrowsLeft_eq_add isWaiting, Option.map_some, Nat.add_sub_cancel]

theorem Counts.releaseAll (level : List NodeId) : ∀ {waits : NodeId → Bool}
    {degrees : SortedMap NodeId Nat}, graph.Counts waits degrees → level.Nodup →
    (∀ node ∈ level, waits node = true) →
    graph.Counts (fun other => waits other && !level.contains other)
      (level.foldl graph.release degrees) := by
  induction level with
  | nil =>
    intro waits degrees counts _ _
    simpa using counts
  | cons node rest inductionHypothesis =>
    intro waits degrees counts once allWait
    obtain ⟨isNew, onceToo⟩ := List.nodup_cons.mp once
    have released := counts.release (allWait node List.mem_cons_self)
    have restWait : ∀ other ∈ rest, (waits other && other ≠ node) = true := by
      intro other member
      have apart : other ≠ node := fun same => isNew (same ▸ member)
      simp [allWait other (List.mem_cons_of_mem _ member), apart]
    have after := inductionHypothesis released onceToo restWait
    rw [List.foldl_cons]
    convert after using 2
    rename_i other
    by_cases here : other = node <;> simp [here]

/-! ### Taking levels away -/

/-- What is true when nodes wait: they are nodes of the graph, each waits once, and the arrows from
them are counted. -/
structure Pending (graph : StackDigraph) (degrees : SortedMap NodeId Nat) (waiting : List NodeId) :
    Prop where
  once : waiting.Nodup
  within : ∀ node ∈ waiting, node ∈ graph.nodes
  counts : graph.Counts waiting.contains degrees

theorem mem_removeAll : node ∈ waiting.removeAll level ↔ node ∈ waiting ∧ node ∉ level := by
  simp [List.removeAll]

namespace Pending

/-- At the beginning all nodes wait. -/
theorem start (proper : graph.Proper) : graph.Pending
    (SortedMap.ofList (graph.nodes.map (fun node => (node, graph.incoming node)))) graph.nodes where
  once := proper.once
  within _ isNode := isNode
  counts := by
    intro node isNode
    have listed : ∃ degree, (node, degree) ∈
        graph.nodes.map (fun node => (node, graph.incoming node)) :=
      ⟨_, List.mem_map.mpr ⟨node, isNode, rfl⟩⟩
    obtain ⟨degree, found⟩ := SortedMap.contains_iff.mp (SortedMap.contains_ofList.mpr listed)
    obtain ⟨_, _, same⟩ := List.mem_map.mp (SortedMap.mem_of_get?_ofList found)
    cases same
    rw [found, incoming, arrowsLeft]
    refine congrArg some (List.countP_congr fun arrow member => ?_)
    have isArrow : graph.Arrow arrow.1 arrow.2 := member
    have isSource : arrow.1 ∈ graph.nodes := proper.source isArrow
    simp [isSource]

variable (pending : graph.Pending degrees waiting)
include pending

/-- A node is ready if no arrow into it comes from a node that waits. -/
theorem mem_ready : node ∈ ready degrees waiting ↔
    node ∈ waiting ∧ ∀ source, graph.Arrow source node → source ∉ waiting := by
  rw [ready, mem_ascending, List.mem_filter]
  refine and_congr_right fun isWaiting => ?_
  rw [pending.counts node (pending.within node isWaiting), decide_eq_true_iff, Option.some.injEq,
    arrowsLeft, List.countP_eq_zero]
  constructor
  · intro none source arrow sourceWaits
    exact none (source, node) arrow (by simp [sourceWaits])
  · intro none arrow member counted
    obtain ⟨rfl, sourceWaits⟩ : arrow.2 = node ∧ arrow.1 ∈ waiting := by simpa using counted
    exact none arrow.1 member sourceWaits

theorem pairwise_ready : (ready degrees waiting).Pairwise (· < ·) :=
  pairwise_ascending (pending.once.filter _)

/-- The nodes that are not ready wait on. -/
theorem step : graph.Pending ((ready degrees waiting).foldl graph.release degrees)
    (waiting.removeAll (ready degrees waiting)) where
  once := pending.once.filter _
  within node member := pending.within node (mem_removeAll.mp member).1
  counts := by
    have once : (ready degrees waiting).Nodup := pending.pairwise_ready.imp Nat.ne_of_lt
    have released := pending.counts.releaseAll _ once fun node isReady =>
      List.contains_iff_mem.mpr (pending.mem_ready.mp isReady).1
    convert released using 2
    rw [Bool.eq_iff_iff, List.contains_iff_mem, mem_removeAll]
    simp

end Pending

/-- Lists of nodes that are the levels of those that wait: first the nodes into which no arrow comes
from a node that waits, in ascending order, then the levels of the others. -/
inductive Levelled (graph : StackDigraph) : List NodeId → List (List NodeId) → Prop where
  | done : Levelled graph [] []
  | proceed {waiting level : List NodeId} {further : List (List NodeId)} : level ≠ [] →
    level.Pairwise (· < ·) →
    (∀ node, node ∈ level ↔ node ∈ waiting ∧ ∀ source, graph.Arrow source node → source ∉ waiting) →
    Levelled graph (waiting.removeAll level) further → Levelled graph waiting (level :: further)

/-- What the search finds are the levels. -/
theorem Pending.levelled (pending : graph.Pending degrees waiting)
    (found : graph.levelsFrom degrees waiting = some levels) : graph.Levelled waiting levels := by
  fun_induction levelsFrom graph degrees waiting generalizing levels with
  | case1 =>
    cases found
    exact .done
  | case2 => cases found
  | case3 degrees waiting _ proceeds level =>
    rename_i inductionHypothesis
    obtain ⟨further, foundFurther, same⟩ := Option.bind_eq_some_iff.mp found
    cases same
    exact .proceed proceeds pending.pairwise_ready (fun node => pending.mem_ready)
      (inductionHypothesis pending.step foundFurther)

/-- If the search finds nothing, then nodes wait for each other. -/
theorem Pending.exists_cycle (pending : graph.Pending degrees waiting)
    (stuck : graph.levelsFrom degrees waiting = none) :
    ∃ node, TransGen graph.Arrow node node := by
  fun_induction levelsFrom graph degrees waiting with
  | case1 => cases stuck
  | case2 degrees waiting inhabited noneReady =>
    refine StackDigraph.exists_cycle inhabited fun node isWaiting => ?_
    have notReady : node ∉ ready degrees waiting := by
      rw [noneReady]
      exact List.not_mem_nil
    simpa [pending.mem_ready, isWaiting, and_comm] using notReady
  | case3 degrees waiting _ proceeds level =>
    rename_i inductionHypothesis
    refine inductionHypothesis pending.step ?_
    cases further : graph.levelsFrom (level.foldl graph.release degrees)
        (waiting.removeAll level) with
    | none => rfl
    | some levels =>
      rw [further] at stuck
      cases stuck

/-! ### The levels -/

/-- A node stands on a level. -/
def OnLevel (levels : List (List NodeId)) (index : Nat) (node : NodeId) : Prop :=
  ∃ level, levels[index]? = some level ∧ node ∈ level

theorem not_onLevel_nil : ¬OnLevel [] index node := by
  rintro ⟨level, found, _⟩
  cases found

theorem onLevel_zero : OnLevel (level :: levels) 0 node ↔ node ∈ level := by
  simp [OnLevel]

theorem onLevel_succ : OnLevel (level :: levels) (index + 1) node ↔ OnLevel levels index node := by
  simp [OnLevel]

theorem mem_flatten_iff : node ∈ levels.flatten ↔ ∃ index, OnLevel levels index node := by
  rw [List.mem_flatten]
  constructor
  · rintro ⟨level, isLevel, member⟩
    obtain ⟨index, found⟩ := List.mem_iff_getElem?.mp isLevel
    exact ⟨index, level, found, member⟩
  · rintro ⟨index, level, found, member⟩
    exact ⟨level, List.mem_of_getElem? found, member⟩

/-- A node that is listed once is on one level. -/
theorem onLevel_unique (once : levels.flatten.Nodup) {first second : Nat}
    (onFirst : OnLevel levels first node) (onSecond : OnLevel levels second node) :
    first = second := by
  obtain ⟨_, apart⟩ := List.nodup_flatten.mp once
  by_contra different
  have never : ∀ {first second}, first < second → OnLevel levels first node →
      OnLevel levels second node → False := by
    rintro first second before ⟨one, isOne, inOne⟩ ⟨two, isTwo, inTwo⟩
    obtain ⟨firstWithin, rfl⟩ := List.getElem?_eq_some_iff.mp isOne
    obtain ⟨secondWithin, rfl⟩ := List.getElem?_eq_some_iff.mp isTwo
    have disjoint := List.pairwise_iff_getElem.mp apart first second firstWithin secondWithin before
    exact disjoint inOne inTwo
  rcases Nat.lt_or_gt_of_ne different with before | after
  · exact never before onFirst onSecond
  · exact never after onSecond onFirst

namespace Levelled

variable (levelled : graph.Levelled waiting levels)
include levelled

theorem ne_nil : ∀ level ∈ levels, level ≠ [] := by
  induction levelled with
  | done => exact List.forall_mem_nil _
  | proceed inhabited _ _ _ inductionHypothesis =>
    exact List.forall_mem_cons.mpr ⟨inhabited, inductionHypothesis⟩

theorem pairwise : ∀ level ∈ levels, level.Pairwise (· < ·) := by
  induction levelled with
  | done => exact List.forall_mem_nil _
  | proceed _ ascending _ _ inductionHypothesis =>
    exact List.forall_mem_cons.mpr ⟨ascending, inductionHypothesis⟩

/-- Every node that waits is on a level. -/
theorem mem_flatten : node ∈ levels.flatten ↔ node ∈ waiting := by
  induction levelled with
  | done => exact Iff.rfl
  | @proceed waiting level further _ _ isReady _ inductionHypothesis =>
    rw [List.flatten_cons, List.mem_append, inductionHypothesis, mem_removeAll]
    have within : node ∈ level → node ∈ waiting := fun member => ((isReady node).mp member).1
    tauto

/-- No node is on two levels. -/
theorem nodup_flatten : levels.flatten.Nodup := by
  induction levelled with
  | done => exact .nil
  | proceed _ ascending _ further inductionHypothesis =>
    rw [List.flatten_cons]
    refine List.nodup_append.mpr
      ⟨ascending.imp Nat.ne_of_lt, inductionHypothesis, fun node here other later same => ?_⟩
    exact (mem_removeAll.mp (further.mem_flatten.mp later)).2 (same ▸ here)

/-- An arrow from a node that waits comes from a lower level. -/
theorem exists_earlier (isWaiting : source ∈ waiting) (arrow : graph.Arrow source target) :
    ∀ {index}, OnLevel levels index target → ∃ earlier < index, OnLevel levels earlier source := by
  induction levelled with
  | done => exact fun onLevel => absurd onLevel not_onLevel_nil
  | @proceed waiting level further _ _ isReady _ inductionHypothesis =>
    intro index onLevel
    cases index with
    | zero =>
      have noneWaits := ((isReady target).mp (onLevel_zero.mp onLevel)).2
      exact absurd isWaiting (noneWaits source arrow)
    | succ index =>
      by_cases here : source ∈ level
      · exact ⟨0, Nat.succ_pos _, onLevel_zero.mpr here⟩
      · obtain ⟨earlier, before, found⟩ :=
          inductionHypothesis (mem_removeAll.mpr ⟨isWaiting, here⟩) (onLevel_succ.mp onLevel)
        exact ⟨earlier + 1, Nat.succ_lt_succ before, onLevel_succ.mpr found⟩

/-- A node above the lowest level has an arrow from the level right below. -/
theorem exists_below : ∀ {index}, OnLevel levels (index + 1) target →
    ∃ source, graph.Arrow source target ∧ OnLevel levels index source := by
  induction levelled with
  | done => exact fun onLevel => absurd onLevel not_onLevel_nil
  | @proceed waiting level further _ _ isReady rest inductionHypothesis =>
    intro index onLevel
    have above := onLevel_succ.mp onLevel
    cases index with
    | succ index =>
      obtain ⟨source, arrow, below⟩ := inductionHypothesis above
      exact ⟨source, arrow, onLevel_succ.mpr below⟩
    | zero =>
      obtain ⟨isWaiting, notReady⟩ :=
        mem_removeAll.mp (rest.mem_flatten.mp (mem_flatten_iff.mpr ⟨0, above⟩))
      -- it was not ready because of an arrow, and that comes from a node that was
      obtain ⟨source, arrow, sourceWaits⟩ : ∃ source, graph.Arrow source target ∧
          source ∈ waiting := by
        simpa [isReady, isWaiting] using notReady
      by_cases here : source ∈ level
      · exact ⟨source, arrow, onLevel_zero.mpr here⟩
      · obtain ⟨_, never, _⟩ :=
          rest.exists_earlier (mem_removeAll.mpr ⟨sourceWaits, here⟩) arrow above
        exact absurd never (Nat.not_lt_zero _)

/-- The levels one behind the other put the nodes in order. -/
theorem idxOf_lt (sourceWaits : source ∈ waiting) (targetWaits : target ∈ waiting)
    (arrow : graph.Arrow source target) :
    levels.flatten.idxOf source < levels.flatten.idxOf target := by
  induction levelled with
  | done => cases sourceWaits
  | @proceed waiting level further _ _ isReady _ inductionHypothesis =>
    have notReady : target ∉ level := fun member =>
      ((isReady target).mp member).2 source arrow sourceWaits
    rw [List.flatten_cons, List.idxOf_append, List.idxOf_append, if_neg notReady]
    split
    · rename_i here
      exact Nat.lt_add_left _ (List.idxOf_lt_length_of_mem here)
    · rename_i notHere
      exact Nat.add_lt_add_right (inductionHypothesis (mem_removeAll.mpr ⟨sourceWaits, notHere⟩)
        (mem_removeAll.mpr ⟨targetWaits, notReady⟩)) _

/-- The levels are determined by which nodes wait and which arrows there are. -/
theorem unique {other : StackDigraph} {waitingToo : List NodeId} {levelsToo : List (List NodeId)}
    (levelledToo : other.Levelled waitingToo levelsToo)
    (sameArrows : ∀ source target, graph.Arrow source target ↔ other.Arrow source target)
    (sameNodes : ∀ node, node ∈ waiting ↔ node ∈ waitingToo) : levels = levelsToo := by
  induction levelled generalizing waitingToo levelsToo with
  | done =>
    cases levelledToo with
    | done => rfl
    | proceed inhabited _ isReady _ =>
      obtain ⟨node, member⟩ := List.exists_mem_of_ne_nil _ inhabited
      cases (sameNodes node).mpr ((isReady node).mp member).1
  | @proceed waiting level further inhabited ascending isReady _ inductionHypothesis =>
    cases levelledToo with
    | done =>
      obtain ⟨node, member⟩ := List.exists_mem_of_ne_nil _ inhabited
      cases (sameNodes node).mp ((isReady node).mp member).1
    | @proceed _ levelToo furtherToo _ ascendingToo isReadyToo rest =>
      have sameLevel : level = levelToo := by
        refine ascending.eq_of_mem_iff ascendingToo fun node => ?_
        simp only [isReady, isReadyToo, sameNodes, sameArrows]
      subst sameLevel
      refine congrArg (level :: ·) (inductionHypothesis rest fun node => ?_)
      rw [mem_removeAll, mem_removeAll, sameNodes]

end Levelled

section All

variable (proper : graph.Proper)
include proper

theorem levelled_of_levels (found : graph.levels = some levels) :
    graph.Levelled graph.nodes levels :=
  (Pending.start proper).levelled found

theorem orders_of_levels (found : graph.levels = some levels) : graph.Orders levels.flatten where
  all := by
    have levelled := levelled_of_levels proper found
    exact (List.perm_ext_iff_of_nodup levelled.nodup_flatten proper.once).mpr
      fun _ => levelled.mem_flatten
  forward _ _ arrow :=
    (levelled_of_levels proper found).idxOf_lt (proper.source arrow) (proper.target arrow) arrow

/-- On the lowest level are the nodes without arrows into them. -/
theorem onLevel_zero_iff (found : graph.levels = some levels) : OnLevel levels 0 node ↔
    node ∈ graph.nodes ∧ ∀ source, ¬graph.Arrow source node := by
  have levelled := levelled_of_levels proper found
  constructor
  · intro lowest
    refine ⟨levelled.mem_flatten.mp (mem_flatten_iff.mpr ⟨0, lowest⟩), fun source arrow => ?_⟩
    obtain ⟨_, never, _⟩ := levelled.exists_earlier (proper.source arrow) arrow lowest
    exact Nat.not_lt_zero _ never
  · rintro ⟨isNode, noArrow⟩
    obtain ⟨index, onLevel⟩ := mem_flatten_iff.mp (levelled.mem_flatten.mpr isNode)
    cases index with
    | zero => exact onLevel
    | succ index =>
      obtain ⟨source, arrow, _⟩ := levelled.exists_below onLevel
      exact absurd arrow (noArrow source)

/-- Every other node is right above the highest node with an arrow into it. -/
theorem onLevel_succ_iff (found : graph.levels = some levels) : OnLevel levels (index + 1) node ↔
    (∃ source, graph.Arrow source node ∧ OnLevel levels index source) ∧
      ∀ source, graph.Arrow source node → ∃ earlier ≤ index, OnLevel levels earlier source := by
  have levelled := levelled_of_levels proper found
  have below : ∀ {index}, OnLevel levels index node → ∀ source, graph.Arrow source node →
      ∃ earlier < index, OnLevel levels earlier source :=
    fun onLevel source arrow => levelled.exists_earlier (proper.source arrow) arrow onLevel
  constructor
  · intro onLevel
    refine ⟨levelled.exists_below onLevel, fun source arrow => ?_⟩
    obtain ⟨earlier, before, isEarlier⟩ := below onLevel source arrow
    exact ⟨earlier, Nat.le_of_lt_succ before, isEarlier⟩
  · rintro ⟨⟨source, arrow, highest⟩, noHigher⟩
    obtain ⟨level, onLevel⟩ :=
      mem_flatten_iff.mp (levelled.mem_flatten.mpr (proper.target arrow))
    -- neither below the level above the highest, nor above it
    obtain ⟨earlier, before, isEarlier⟩ := below onLevel source arrow
    have same := onLevel_unique levelled.nodup_flatten highest isEarlier
    cases level with
    | zero => exact absurd before (Nat.not_lt_zero _)
    | succ level =>
      obtain ⟨other, arrowToo, rightBelow⟩ := levelled.exists_below onLevel
      obtain ⟨bound, atMost, isBound⟩ := noHigher other arrowToo
      have sameToo := onLevel_unique levelled.nodup_flatten rightBelow isBound
      have exactly : level = index := by omega
      exact exactly ▸ onLevel

/-- There are levels unless there is a cycle. -/
theorem exists_levels_iff : (∃ levels, graph.levels = some levels) ↔ graph.Acyclic := by
  constructor
  · rintro ⟨levels, found⟩
    exact (orders_of_levels proper found).acyclic
  · intro acyclic
    cases found : graph.levels with
    | some levels => exact ⟨levels, rfl⟩
    | none =>
      obtain ⟨node, cycle⟩ := (Pending.start proper).exists_cycle found
      exact absurd cycle (acyclic node)

end All

end StackSynth.StackDigraph
