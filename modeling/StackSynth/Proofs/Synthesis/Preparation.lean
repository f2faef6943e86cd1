/-
This file follows the preparation of an application through its loop. At every moment the wiring
accounts for the references wired so far, everything that constructs consume is settled, and each
nested stack rendered so far has a template that would come out the same if it were rendered now:
what is wired after it concerns only stacks that lie less deep, and the loop goes from the deepest
stacks up. So when a stack is rendered, everything it asks for is there, and what was embedded
stays as it is.
-/

import StackSynth.Proofs.Application.Building
import StackSynth.Proofs.Construct.Preorder
import StackSynth.Proofs.Synthesis.Asking
import StackSynth.Proofs.Wiring.Direction
import StackSynth.Proofs.Wiring.Finding
import StackSynth.Proofs.Wiring.Record
import StackSynth.Synthesis.Prepared

namespace StackSynth

open Outcome

/-- The address of a published file asks for slots of its asset only. -/
theorem Asset.Handle.leaf_of_webUrl {handle : Asset.Handle} {leaf : Leaf}
    (member : leaf ∈ handle.webUrl.leaves) :
    ∃ slot, leaf = .asset handle.stack handle.hash slot := by
  rw [leaves_webUrl, leaves_bucketName, leaves_objectKey] at member
  simp only [List.cons_append, List.nil_append, List.mem_cons, List.not_mem_nil,
    or_false, or_self] at member
  rcases member with rfl | rfl <;> exact ⟨_, rfl⟩

namespace Prepared

/-- A nested stack is embedded: its template is the one that rendering it gives, and the stack
around it can write the address of the template. -/
structure Embeds (tree : Tree) (prepared : Prepared) (stack : NodeId)
    (embedded : EmbeddedTemplate) (top parent : NodeId) : Prop where
  isNested : tree.isNested stack = true
  located : prepared.rendering.embedded.get? stack = some embedded
  file : embedded.file = nestedFile tree stack
  template : prepared.rendering.template tree stack ∅ = .ok embedded.template
  outermost : tree.topLevelOf? stack = some top
  around : tree.parentStack? stack = some parent
  location : ∃ hash, embedded.location = (⟨stack, top, hash⟩ : Asset.Handle).webUrl
  reachable : ∀ leaf ∈ embedded.location.leaves, tree.Settled prepared.wiring.table parent leaf

/-- What holds of the preparation after some nested stacks are done. -/
structure Sound (tree : Tree) (done : List NodeId) (prepared : Prepared) : Prop where
  accounts : prepared.wiring.Accounts tree prepared.wired
  /-- What is wired is consumed away from home, in a stack. -/
  proper : ∀ entry ∈ prepared.wired, entry.1.Proper tree ∧
    tree.isStack entry.1.consumerStack = true
  consumed : ∀ {node stack}, tree.stackOf? node = some stack → ∀ leaf ∈ tree.consumedBy node,
    tree.Settled prepared.wiring.table stack leaf
  embeds : ∀ stack ∈ done, ∃ embedded top parent, prepared.Embeds tree stack embedded top parent
  only : ∀ {stack embedded}, prepared.rendering.embedded.get? stack = some embedded → stack ∈ done

variable {tree : Tree} {prepared next : Prepared} {stack nested : NodeId} {done : List NodeId}

/-! ### The order of the loop -/

theorem perm_placeByDepth (stack : NodeId) (nodes : List NodeId) :
    (placeByDepth tree stack nodes).Perm (stack :: nodes) := by
  induction nodes with
  | nil => exact .refl _
  | cons first rest inductionHypothesis =>
    rw [placeByDepth]
    split
    · exact .refl _
    · exact (inductionHypothesis.cons first).trans (.swap stack first rest)

theorem perm_foldr_placeByDepth (nodes : List NodeId) :
    (nodes.foldr (placeByDepth tree) []).Perm nodes := by
  induction nodes with
  | nil => exact .refl _
  | cons first rest inductionHypothesis =>
    exact (perm_placeByDepth first _).trans (inductionHypothesis.cons first)

/-- Placing a stack keeps the deepest first. -/
theorem descends_placeByDepth {nodes : List NodeId}
    (descends : nodes.Pairwise (fun first second => tree.depth second ≤ tree.depth first)) :
    (placeByDepth tree stack nodes).Pairwise
      (fun first second => tree.depth second ≤ tree.depth first) := by
  induction nodes with
  | nil => exact List.pairwise_singleton _ _
  | cons first rest inductionHypothesis =>
    obtain ⟨below, descendsRest⟩ := List.pairwise_cons.mp descends
    rw [placeByDepth]
    split
    · rename_i notDeeper
      refine List.pairwise_cons.mpr ⟨fun other member => ?_, descends⟩
      rcases List.mem_cons.mp member with rfl | inRest
      · exact notDeeper
      · exact Nat.le_trans (below other inRest) notDeeper
    · rename_i deeper
      refine List.pairwise_cons.mpr ⟨fun other member => ?_, inductionHypothesis descendsRest⟩
      rcases List.mem_cons.mp ((perm_placeByDepth stack rest).mem_iff.mp member) with rfl | inRest
      · exact Nat.le_of_lt (Nat.lt_of_not_le deeper)
      · exact below other inRest

theorem nodup_nestedStacks (wellFormed : tree.WellFormed) : (nestedStacks tree).Nodup :=
  (perm_foldr_placeByDepth _).nodup_iff.mpr
    (((Tree.nodup_preorder wellFormed.ordered).filter _).filter _)

theorem mem_nestedStacks (wellFormed : tree.WellFormed) :
    stack ∈ nestedStacks tree ↔ tree.isNested stack = true := by
  rw [nestedStacks, (perm_foldr_placeByDepth _).mem_iff, List.mem_filter, wellFormed.mem_allStacks]
  exact and_iff_right_of_imp Tree.isStack_of_isNested

/-- The loop takes its turns with nested stacks only. -/
theorem isNested_of_turn (wellFormed : tree.WellFormed) {before after : List NodeId}
    (split : nestedStacks tree = before ++ stack :: after) : tree.isNested stack = true := by
  rw [← mem_nestedStacks wellFormed, split]
  exact List.mem_append_right _ List.mem_cons_self

/-- The deepest stacks come first. -/
theorem depth_descends (tree : Tree) :
    (nestedStacks tree).Pairwise (fun first second => tree.depth second ≤ tree.depth first) := by
  rw [nestedStacks]
  induction tree.allStacks.filter tree.isNested with
  | nil => exact .nil
  | cons first rest inductionHypothesis => exact descends_placeByDepth inductionHypothesis

section

variable {before after : List NodeId} (split : nestedStacks tree = before ++ stack :: after)
include split

theorem depth_le_of_before {earlier : NodeId} (member : earlier ∈ before) :
    tree.depth stack ≤ tree.depth earlier := by
  have descends := depth_descends tree
  rw [split] at descends
  exact (List.pairwise_append.mp descends).2.2 earlier member stack List.mem_cons_self

/-- The nested stacks in a stack come before it. -/
theorem child_mem_before (wellFormed : tree.WellFormed) (isNested : tree.isNested nested = true)
    (around : tree.parentStack? nested = some stack) : nested ∈ before := by
  have deeper := wellFormed.depth_of_nested (Tree.isStack_of_isNested isNested) around
  have listed := (mem_nestedStacks wellFormed).mpr isNested
  rw [split] at listed
  rcases List.mem_append.mp listed with early | late
  · exact early
  · have descends := depth_descends tree
    rw [split] at descends
    have notDeeper : tree.depth nested ≤ tree.depth stack := by
      rcases List.mem_cons.mp late with same | inAfter
      · exact Nat.le_of_eq (congrArg tree.depth same)
      · exact (List.pairwise_cons.mp (List.pairwise_append.mp descends).2.1).1 nested inAfter
    rw [deeper] at notDeeper
    exact absurd notDeeper (Nat.not_succ_le_self _)

end

/-! ### The start -/

/-- A preparation starts with the references of the application, wired from an empty record. -/
theorem start_eq_ok {app : Application} (started : start app = .ok prepared) :
    ∃ references wired wiring, app.tree.references = .ok references ∧
      Wiring.wireAll app.tree (.start (stackGraph app.tree)) references = .ok (wired, wiring) ∧
      prepared = ⟨⟨wiring, ∅⟩, app.assets, wired⟩ := by
  obtain ⟨references, found, started⟩ := bind_eq_ok.mp started
  obtain ⟨⟨wired, wiring⟩, wiredAll, same⟩ := bind_eq_ok.mp started
  cases same
  exact ⟨references, wired, wiring, mapError_eq_ok.mp found, mapError_eq_ok.mp wiredAll, rfl⟩

theorem Tree.Indigenous.settled {leaf : Leaf} (indigenous : tree.Indigenous leaf stack)
    (table : SortedMap Consumption Template.Value) : tree.Settled table stack leaf :=
  indigenous.imp id .inl

/-- The references of the application itself settle everything that constructs consume. -/
theorem sound_start {app : Application} (wellFormed : app.tree.WellFormed)
    (started : start app = .ok prepared) : prepared.Sound app.tree [] := by
  obtain ⟨references, wired, wiring, found, wiredAll, rfl⟩ := start_eq_ok started
  obtain ⟨all, proper⟩ := wellFormed.references_eq_ok found
  obtain ⟨accounts, listed⟩ := Wiring.accounts_wireAll (.start app.tree _) wiredAll
  rw [List.nil_append] at accounts
  constructor
  case accounts => exact accounts
  case proper =>
    intro entry member
    obtain ⟨isProper, _, belongs, _⟩ :=
      proper entry.1 (listed ▸ List.mem_map.mpr ⟨entry, member, rfl⟩)
    exact ⟨isProper, Tree.isStack_of_stackOf? belongs⟩
  case consumed =>
    intro node stack belongs leaf member
    rcases all node stack belongs leaf member with indigenous | ⟨reference, isFound, rfl, rfl⟩
    · exact Tree.Indigenous.settled indigenous _
    · rw [← listed] at isFound
      obtain ⟨entry, isWired, rfl⟩ := List.mem_map.mp isFound
      exact .inr (.inr (accounts.notes isWired))
  case embeds => exact fun _ never => nomatch never
  case only => exact fun never => nomatch never

/-! ### One turn -/

/-- What embedding a nested stack does. -/
structure Turn (tree : Tree) (bundler : Asset.Bundler) (prepared : Prepared) (stack : NodeId)
    (next : Prepared) (embedded : EmbeddedTemplate) (top parent : NodeId)
    (hash : ContentHash) (references : List Reference)
    (wired : List (Reference × Boundary)) : Prop where
  template : prepared.rendering.template tree stack ∅ = .ok embedded.template
  file : embedded.file = nestedFile tree stack
  outermost : tree.topLevelOf? stack = some top
  around : tree.parentStack? stack = some parent
  hashed : bundler (.inline embedded.file embedded.template.toJson.compact.toUTF8) = .ok hash
  location : embedded.location = (⟨stack, top, hash⟩ : Asset.Handle).webUrl
  found : tree.referencesAmong stack parent [] embedded.location.leaves = .ok references
  wiring : prepared.wiring.wireAll tree references = .ok (wired, next.wiring)
  wiredAfter : next.wired = prepared.wired ++ wired
  embeddedAfter : next.rendering.embedded = prepared.rendering.embedded.insert stack embedded
  assetsAfter : next.assets = (prepared.assets.register top ⟨hash, .file, embedded.file⟩).1

theorem turn_of_embed {bundler : Asset.Bundler}
    (turned : embed tree bundler prepared stack = .ok next) :
    ∃ embedded top parent hash references wired,
      Turn tree bundler prepared stack next embedded top parent hash references wired := by
  obtain ⟨template, rendered, turned⟩ := bind_eq_ok.mp turned
  obtain ⟨hash, hashed, turned⟩ := bind_eq_ok.mp turned
  split at turned
  · rename_i top parent outermost around
    obtain ⟨references, found, turned⟩ := bind_eq_ok.mp turned
    obtain ⟨further, wiredMore, same⟩ := bind_eq_ok.mp turned
    obtain ⟨⟨wired, wiring⟩, wiredAll, sameFurther⟩ := bind_eq_ok.mp wiredMore
    cases sameFurther
    cases same
    rw [mapError_eq_ok] at found wiredAll hashed
    exact ⟨⟨nestedFile tree stack, template, (⟨stack, top, hash⟩ : Asset.Handle).webUrl⟩, top,
      parent, hash, references, wired,
      { template := rendered, file := rfl, outermost, around, hashed, location := rfl, found,
        wiring := wiredAll, wiredAfter := rfl, embeddedAfter := rfl, assetsAfter := rfl }⟩
  · cases turned

namespace Turn

variable {bundler : Asset.Bundler} {embedded : EmbeddedTemplate} {top parent : NodeId}
  {hash : ContentHash} {references : List Reference} {wired : List (Reference × Boundary)}
  (turn : Turn tree bundler prepared stack next embedded top parent hash references wired)
include turn

theorem isStackParent : tree.isStack parent = true := Tree.isStack_of_parentStack? turn.around

/-- The values that locate a template come from the top-level stack. -/
theorem home_eq {reference : Reference} (member : reference ∈ references) :
    reference.producer.home = top := by
  obtain ⟨proper, inLocation, _⟩ := (Tree.referencesAmong_eq_ok turn.found).2 reference member
  rw [turn.location] at inLocation
  obtain ⟨slot, sameLeaf⟩ := Asset.Handle.leaf_of_webUrl inLocation
  have origin := proper.origin
  rw [sameLeaf] at origin
  exact congrArg Producer.home (Except.ok.inj origin).symm

/-- They are named by stacks around the embedded one only. -/
theorem holder_mem_chain (wellFormed : tree.WellFormed) (isStack : tree.isStack stack = true)
    {reference : Reference} (member : reference ∈ references) {delivery : Delivery}
    (delivered : tree.delivery reference.producer reference.consumerStack = .ok delivery)
    {hop : Hop} (isHop : hop ∈ delivery.hops) :
    hop.crossing.holder ∈ tree.stackChain parent := by
  obtain ⟨route, found, _, travelled⟩ := Tree.delivery_eq_ok delivered
  have crossed : hop.crossing ∈ route.crossings := by
    rw [← Tree.crossings_journey travelled]
    exact List.mem_map.mpr ⟨hop, isHop, rfl⟩
  obtain ⟨_, _, atParent⟩ := (Tree.referencesAmong_eq_ok turn.found).2 reference member
  rw [turn.home_eq member, atParent] at found
  have outermost := turn.outermost
  rw [wellFormed.topLevelOf?_of_nested isStack turn.around] at outermost
  obtain ⟨before, parentChain, isStackTop, aroundTop⟩ :=
    wellFormed.topLevelOf?_eq_some turn.isStackParent outermost
  rcases Tree.holder_mem_chains found crossed with aroundHome | aroundParent
  · rw [wellFormed.stackChain_of_outermost isStackTop aroundTop] at aroundHome
    rw [List.mem_singleton.mp aroundHome, parentChain]
    exact List.mem_append_right _ List.mem_cons_self
  · exact aroundParent

/-- These lie less deep than the embedded one. -/
theorem depth_holder_lt (wellFormed : tree.WellFormed) (isStack : tree.isStack stack = true)
    {reference : Reference} (member : reference ∈ references) {delivery : Delivery}
    (delivered : tree.delivery reference.producer reference.consumerStack = .ok delivery)
    {hop : Hop} (isHop : hop ∈ delivery.hops) :
    tree.depth hop.crossing.holder < tree.depth stack := by
  rw [wellFormed.depth_of_nested isStack turn.around]
  exact Nat.lt_succ_of_le (wellFormed.depth_le_of_mem turn.isStackParent
    (turn.holder_mem_chain wellFormed isStack member delivered isHop))

/-- A turn does nothing to the stacks that lie as deep as the embedded one or deeper. -/
theorem untouched (wellFormed : tree.WellFormed) (isStack : tree.isStack stack = true)
    {other : NodeId} (deep : tree.depth stack ≤ tree.depth other) :
    Rendering.Untouched tree other prepared.rendering next.rendering := by
  have sameState : ∀ {place}, tree.depth stack ≤ tree.depth place →
      next.wiring.stateOf place = prepared.wiring.stateOf place := by
    intro place deepPlace
    refine Wiring.stateOf_wireAll turn.wiring
      fun reference member delivery delivered hop isHop => ?_
    have shallow := turn.depth_holder_lt wellFormed isStack member delivered isHop
    rintro rfl
    exact absurd deepPlace (Nat.not_le_of_lt shallow)
  have deepChild : ∀ {nested}, tree.isNested nested = true →
      tree.parentStack? nested = some other → tree.depth stack < tree.depth nested := by
    intro nested isNested around
    rw [wellFormed.depth_of_nested (Tree.isStack_of_isNested isNested) around]
    exact Nat.lt_succ_of_le deep
  constructor
  case own => exact (sameState deep).symm
  case table =>
    intro leaf
    have notParent : ∀ reference ∈ references, reference.consumerStack ≠ other := by
      intro reference member atOther
      obtain ⟨_, _, atParent⟩ := (Tree.referencesAmong_eq_ok turn.found).2 reference member
      rw [wellFormed.depth_of_nested isStack turn.around, ← atParent, atOther] at deep
      exact absurd deep (Nat.not_succ_le_self _)
    exact (Wiring.table_wireAll turn.wiring notParent leaf).symm
  case supplied =>
    intro nested isNested around
    exact congrArg StackWiring.received
      (sameState (Nat.le_of_lt (deepChild isNested around))).symm
  case embedded =>
    intro nested isNested around
    rw [turn.embeddedAfter, SortedMap.get?_insert_of_ne]
    rintro rfl
    exact absurd (deepChild isNested around) (Nat.lt_irrefl _)

theorem settled {leaf : Leaf} {place : NodeId}
    (settled : tree.Settled prepared.wiring.table place leaf) :
    tree.Settled next.wiring.table place leaf :=
  settled.imp id (Or.imp id (Wiring.exists_table_wireAll turn.wiring))

/-- The references of a turn are wired into the stack around the embedded one. -/
theorem accounts_wired (accounts : prepared.wiring.Accounts tree prepared.wired) :
    next.wiring.Accounts tree next.wired ∧ wired.map (·.1) = references := by
  rw [turn.wiredAfter]
  exact Wiring.accounts_wireAll accounts turn.wiring

/-- The stack is embedded as it should be, and the stack around it can write its address. -/
theorem embeds (wellFormed : tree.WellFormed) (isNested : tree.isNested stack = true)
    (accounts : prepared.wiring.Accounts tree prepared.wired) :
    next.Embeds tree stack embedded top parent := by
  have isStack := Tree.isStack_of_isNested isNested
  constructor
  case isNested => exact isNested
  case located => rw [turn.embeddedAfter, SortedMap.get?_insert_self]
  case file => exact turn.file
  case template =>
    have untouched := turn.untouched wellFormed isStack (Nat.le_refl _)
    rw [← (untouched.agree wellFormed isStack).template]
    exact turn.template
  case outermost => exact turn.outermost
  case around => exact turn.around
  case location => exact ⟨hash, turn.location⟩
  case reachable =>
    intro leaf member
    obtain ⟨accountsAfter, listed⟩ := turn.accounts_wired accounts
    obtain ⟨all, proper⟩ := Tree.referencesAmong_eq_ok turn.found
    rcases all leaf member with never | indigenous | ⟨reference, isFound, sameLeaf⟩
    · cases never
    · exact Tree.Indigenous.settled indigenous _
    · have atParent := (proper reference isFound).2.2
      rw [← listed] at isFound
      obtain ⟨entry, isWired, rfl⟩ := List.mem_map.mp isFound
      rw [← sameLeaf, ← atParent]
      refine .inr (.inr (accountsAfter.notes ?_))
      rw [turn.wiredAfter]
      exact List.mem_append_right _ isWired

/-- A stack that was embedded before, and lies as deep or deeper, is embedded as it was. -/
theorem embeds_of_embeds (wellFormed : tree.WellFormed) (isNested : tree.isNested stack = true)
    {place itsTop itsParent : NodeId} {known : EmbeddedTemplate} (different : place ≠ stack)
    (deep : tree.depth stack ≤ tree.depth place)
    (embeds : prepared.Embeds tree place known itsTop itsParent) :
    next.Embeds tree place known itsTop itsParent where
  __ := embeds
  located := by rw [turn.embeddedAfter, SortedMap.get?_insert_of_ne different, embeds.located]
  template := by
    have untouched := turn.untouched wellFormed (Tree.isStack_of_isNested isNested) deep
    rw [← (untouched.agree wellFormed (Tree.isStack_of_isNested embeds.isNested)).template]
    exact embeds.template
  reachable leaf asked := turn.settled (embeds.reachable leaf asked)

end Turn

/-- A turn keeps what holds of the preparation. -/
theorem Sound.turn (sound : prepared.Sound tree done) (wellFormed : tree.WellFormed)
    (isNested : tree.isNested stack = true)
    (deepest : ∀ earlier ∈ done, tree.depth stack ≤ tree.depth earlier)
    {bundler : Asset.Bundler} (turned : embed tree bundler prepared stack = .ok next) :
    next.Sound tree (done ++ [stack]) := by
  obtain ⟨embedded, top, parent, hash, references, wired, turn⟩ := turn_of_embed turned
  obtain ⟨accounts, listed⟩ := turn.accounts_wired sound.accounts
  constructor
  case accounts => exact accounts
  case proper =>
    intro entry member
    rw [turn.wiredAfter] at member
    rcases List.mem_append.mp member with early | late
    · exact sound.proper entry early
    · have isFound : entry.1 ∈ references := listed ▸ List.mem_map.mpr ⟨entry, late, rfl⟩
      obtain ⟨isProper, _, atParent⟩ := (Tree.referencesAmong_eq_ok turn.found).2 entry.1 isFound
      exact ⟨isProper, atParent ▸ turn.isStackParent⟩
  case consumed =>
    intro node place belongs leaf member
    exact turn.settled (sound.consumed belongs leaf member)
  case embeds =>
    intro place member
    by_cases here : place = stack
    · exact here ▸ ⟨embedded, top, parent, turn.embeds wellFormed isNested sound.accounts⟩
    · have early : place ∈ done := (List.mem_append.mp member).resolve_right
        (fun last => here (List.mem_singleton.mp last))
      obtain ⟨known, itsTop, itsParent, embeds⟩ := sound.embeds place early
      exact ⟨known, itsTop, itsParent,
        turn.embeds_of_embeds wellFormed isNested here (deepest place early) embeds⟩
  case only =>
    intro place known located
    by_cases here : place = stack
    · exact here ▸ List.mem_append_right _ List.mem_cons_self
    · rw [turn.embeddedAfter, SortedMap.get?_insert_of_ne here] at located
      exact List.mem_append_left _ (sound.only located)

/-! ### Any number of turns -/

/-- What holds of the preparation holds after the first stacks of the loop, however many. -/
theorem sound_of_foldlM {app : Application} (wellFormed : app.tree.WellFormed)
    {before after : List NodeId} (split : nestedStacks app.tree = before ++ after)
    {started : Prepared} (start : start app = .ok started) {bundler : Asset.Bundler}
    (run : before.foldlM (embed app.tree bundler) started = .ok prepared) :
    prepared.Sound app.tree before := by
  refine foldlM_invariant (fun done state => state.Sound app.tree done) ?_
    (sound_start wellFormed start) run
  intro done stack later state next splitBefore sound turned
  have splitHere : nestedStacks app.tree = done ++ stack :: (later ++ after) := by
    rw [split, splitBefore, List.append_assoc, List.cons_append]
  exact sound.turn wellFormed (isNested_of_turn wellFormed splitHere)
    (fun earlier member => depth_le_of_before splitHere member) turned

/-- An application is prepared by the start, then by the loop over its nested stacks; the graph
that comes of it has passed its check. -/
theorem prepare_eq_ok {app : Application} {bundler : Asset.Bundler}
    (ready : app.prepare bundler = .ok prepared) :
    ∃ started, start app = .ok started ∧
      (nestedStacks app.tree).foldlM (embed app.tree bundler) started = .ok prepared ∧
      checkGraph app.tree prepared.graph = .ok () := by
  obtain ⟨started, start, ready⟩ := bind_eq_ok.mp ready
  obtain ⟨last, run, ready⟩ := bind_eq_ok.mp ready
  obtain ⟨_, checked, same⟩ := bind_eq_ok.mp ready
  cases same
  exact ⟨started, start, run, checked⟩

theorem sound_of_prepare {app : Application} (wellFormed : app.tree.WellFormed)
    {bundler : Asset.Bundler} (ready : app.prepare bundler = .ok prepared) :
    prepared.Sound app.tree (nestedStacks app.tree) := by
  obtain ⟨started, start, run, _⟩ := prepare_eq_ok ready
  exact sound_of_foldlM wellFormed (List.append_nil _).symm start run

/-- A stack whose nested stacks are done finds everything that it asks for. -/
theorem Sound.complete (sound : prepared.Sound tree done) (wellFormed : tree.WellFormed)
    (isStack : tree.isStack stack = true)
    (children : ∀ nested, tree.isNested nested = true → tree.parentStack? nested = some stack →
      nested ∈ done) : prepared.rendering.Complete tree stack := by
  constructor
  case settled =>
    intro leaf asked
    obtain ⟨member, isMember, asks⟩ := List.mem_flatMap.mp asked
    have around := (wellFormed.mem_membersOf isStack).mp isMember
    rcases Rendering.consumed_or_located_of_askedBy asks with
      ⟨noStack, consumes⟩ | ⟨isNested, embedded, located, inLocation⟩
    · exact sound.consumed ((Tree.stackOf?_of_not_isStack noStack).trans around) leaf consumes
    · obtain ⟨_, top, parent, embeds⟩ := sound.embeds member (children member isNested around)
      cases Option.some.inj (located.symm.trans embeds.located)
      cases Option.some.inj (around.symm.trans embeds.around)
      exact embeds.reachable leaf inLocation
  case located =>
    intro member isMember isNested
    obtain ⟨embedded, _, _, embeds⟩ := sound.embeds member
      (children member isNested ((wellFormed.mem_membersOf isStack).mp isMember))
    exact ⟨embedded, embeds.located⟩

end Prepared

end StackSynth
