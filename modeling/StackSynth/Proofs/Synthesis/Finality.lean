/-
This file proves that embedded templates are final. A nested stack is rendered while wiring is
still going on, and the hash of what is rendered goes into its address, so nothing may change the
template afterwards. Nothing does: the turn that embeds the stack, and every turn behind it, wires
values only into stacks that lie less deep, and these have no part in what the stack is rendered
from. What is registered under the hash stays registered, and the address is written where the
stack is embedded.
-/

import StackSynth.Proofs.Asset.Registry
import StackSynth.Proofs.Synthesis.Preparation
import StackSynth.Proofs.Template.Sections

namespace StackSynth

open Outcome

namespace Prepared

variable {tree : Tree} {bundler : Asset.Bundler} {prepared next : Prepared} {stack : NodeId}

/-! ### The assets of templates -/

/-- The template of a nested stack is an asset of its top-level stack: its address is that of the
hash of its text, which has all of its declarations, and the registry has an asset of that hash. -/
structure Published (bundler : Asset.Bundler) (assets : Asset.Registry) (stack top : NodeId)
    (embedded : EmbeddedTemplate) (hash : ContentHash) : Prop where
  hashed : bundler (.inline embedded.file embedded.template.toJson.compact.toUTF8) = .ok hash
  written : embedded.template.Written embedded.template.toJson
  address : embedded.location = (⟨stack, top, hash⟩ : Asset.Handle).webUrl
  registered : ∃ record, assets.find? top hash = some record

/-- Every template embedded so far is published. -/
def AllPublished (tree : Tree) (bundler : Asset.Bundler) (prepared : Prepared) : Prop :=
  ∀ {stack embedded}, prepared.rendering.embedded.get? stack = some embedded →
    ∃ top hash, tree.topLevelOf? stack = some top ∧
      Published bundler prepared.assets stack top embedded hash

/-- A turn publishes the template that it embeds and keeps the others published. -/
theorem AllPublished.turn (all : AllPublished tree bundler prepared)
    (turned : embed tree bundler prepared stack = .ok next) : AllPublished tree bundler next := by
  obtain ⟨embedded, top, parent, hash, references, wired, turn⟩ := turn_of_embed turned
  intro place known located
  rw [turn.embeddedAfter] at located
  by_cases here : place = stack
  · subst here
    rw [SortedMap.get?_insert_self] at located
    cases located
    refine ⟨top, hash, turn.outermost, turn.hashed, embedded.template.written, turn.location, ?_⟩
    rw [turn.assetsAfter]
    exact Asset.Registry.exists_find?_register _ _ ⟨hash, .file, embedded.file⟩
  · rw [SortedMap.get?_insert_of_ne here] at located
    obtain ⟨itsTop, itsHash, outermost, published⟩ := all located
    obtain ⟨record, registered⟩ := published.registered
    refine ⟨itsTop, itsHash, outermost, published.hashed, published.written, published.address,
      record, ?_⟩
    rw [turn.assetsAfter]
    exact Asset.Registry.find?_register_of_some registered

variable {app : Application} {started : Prepared} {before after : List NodeId}

theorem allPublished_of_foldlM (wellFormed : app.tree.WellFormed)
    (start : start app = .ok started)
    (run : before.foldlM (embed app.tree bundler) started = .ok prepared) :
    AllPublished app.tree bundler prepared := by
  refine foldlM_invariant (fun _ state => AllPublished app.tree bundler state) ?_ ?_ run
  · intro _ nested _ state next _ all turned
    exact all.turn turned
  · intro nested embedded located
    exact nomatch (sound_start wellFormed start).only located

/-! ### Turns behind a stack -/

theorem untouched_of_embed (wellFormed : tree.WellFormed) {nested : NodeId}
    (isStack : tree.isStack stack = true) (deep : tree.depth stack ≤ tree.depth nested)
    (turned : embed tree bundler prepared stack = .ok next) :
    Rendering.Untouched tree nested prepared.rendering next.rendering := by
  obtain ⟨_, _, _, _, _, _, turn⟩ := turn_of_embed turned
  exact turn.untouched wellFormed isStack deep

/-- From its own turn to the end of the loop nothing is done to a nested stack. -/
theorem untouched_of_foldlM (wellFormed : tree.WellFormed)
    (split : nestedStacks tree = before ++ stack :: after)
    (run : (stack :: after).foldlM (embed tree bundler) prepared = .ok next) :
    Rendering.Untouched tree stack prepared.rendering next.rendering := by
  have shallow : ∀ later ∈ stack :: after, tree.isStack later = true ∧
      tree.depth later ≤ tree.depth stack := by
    intro later member
    have isNested : tree.isNested later = true := by
      rw [← mem_nestedStacks wellFormed, split]
      exact List.mem_append_right _ member
    refine ⟨Tree.isStack_of_isNested isNested, ?_⟩
    rcases List.mem_cons.mp member with rfl | behind
    · exact Nat.le_refl _
    · obtain ⟨front, back, splitAfter⟩ := List.append_of_mem behind
      have splitLater : nestedStacks tree = (before ++ stack :: front) ++ later :: back := by
        rw [split, splitAfter, List.append_assoc, List.cons_append]
      exact depth_le_of_before splitLater (List.mem_append_right _ List.mem_cons_self)
  refine foldlM_invariant
    (fun _ state => Rendering.Untouched tree stack prepared.rendering state.rendering) ?_
    (Rendering.Untouched.refl _ _ _) run
  intro done later rest state following splitRest untouched turned
  have listed : later ∈ stack :: after := by
    rw [splitRest]
    exact List.mem_append_right _ List.mem_cons_self
  obtain ⟨isStack, deep⟩ := shallow later listed
  exact untouched.trans (untouched_of_embed wellFormed isStack deep turned)

/-! ### Final templates -/

/-- The loop comes to a nested stack and renders it as it would be rendered at the end, since
nothing is done to it in between. -/
def RenderedForGood (tree : Tree) (bundler : Asset.Bundler) (started prepared : Prepared)
    (nested : NodeId) (template : Template) : Prop :=
  nested ∈ nestedStacks tree ∧ ∀ before after, nestedStacks tree = before ++ nested :: after →
    ∃ state, before.foldlM (embed tree bundler) started = .ok state ∧
      state.rendering.template tree nested ∅ = .ok template ∧
      Rendering.Untouched tree nested state.rendering prepared.rendering

/-- The embedded template of a nested stack is final. -/
structure Final (tree : Tree) (bundler : Asset.Bundler) (started prepared : Prepared)
    (nested : NodeId) (embedded : EmbeddedTemplate) (top parent : NodeId) (hash : ContentHash) :
    Prop where
  outermost : tree.topLevelOf? nested = some top
  around : tree.parentStack? nested = some parent
  located : prepared.rendering.embedded.get? nested = some embedded
  /-- It is what rendering the stack gives when all is prepared. -/
  template : prepared.rendering.template tree nested ∅ = .ok embedded.template
  forGood : RenderedForGood tree bundler started prepared nested embedded.template
  published : Published bundler prepared.assets nested top embedded hash
  /-- The stack around it can write its address, whose values come from the top-level stack. -/
  resolves : ∀ leaf ∈ embedded.location.leaves, ∃ producer value,
    tree.producer leaf = .ok producer ∧ producer.home = top ∧
      tree.view prepared.rendering.wiring.table parent leaf = .ok value

/-- All slots of an asset are at home in its top-level stack. -/
theorem Published.origin {assets : Asset.Registry} {top : NodeId} {embedded : EmbeddedTemplate}
    {hash : ContentHash} (published : Published bundler assets stack top embedded hash) {leaf : Leaf}
    (member : leaf ∈ embedded.location.leaves) :
    ∃ producer, tree.producer leaf = .ok producer ∧ producer.home = top := by
  rw [published.address] at member
  obtain ⟨slot, rfl⟩ := Asset.Handle.leaf_of_webUrl member
  exact ⟨_, rfl, rfl⟩

end Prepared

namespace Application

/-- Preparation embeds every nested stack with a template that is final: it is rendered in the
loop as it would be rendered at the end, its address is made from its own hash and leads to a
registered asset, and the stack around it can write that address. -/
theorem embedded_templates_are_final (bundler : Asset.Bundler) (steps : List BuildStep)
    {prepared : Prepared} (ready : (build bundler steps).prepare bundler = .ok prepared) :
    ∃ started, Prepared.start (build bundler steps) = .ok started ∧
      ∀ nested, (build bundler steps).tree.isNested nested = true →
        ∃ embedded top parent hash, Prepared.Final (build bundler steps).tree bundler started
          prepared nested embedded top parent hash := by
  have wellFormed := wellFormed_build bundler steps
  have sound := Prepared.sound_of_prepare wellFormed ready
  obtain ⟨started, start, run, _⟩ := Prepared.prepare_eq_ok ready
  refine ⟨started, start, fun nested isNested => ?_⟩
  have listed := (Prepared.mem_nestedStacks wellFormed).mpr isNested
  have isStack := Tree.isStack_of_isNested isNested
  obtain ⟨embedded, top, parent, embeds⟩ := sound.embeds nested listed
  obtain ⟨sameTop, hash, outermost, published⟩ :=
    Prepared.allPublished_of_foldlM wellFormed start run embeds.located
  rw [embeds.outermost] at outermost
  cases outermost
  refine ⟨embedded, top, parent, hash, ?_⟩
  constructor
  case outermost => exact embeds.outermost
  case around => exact embeds.around
  case located => exact embeds.located
  case template => exact embeds.template
  case forGood =>
    refine ⟨listed, fun before after split => ?_⟩
    rw [split] at run
    obtain ⟨state, first, rest⟩ := foldlM_append_eq_ok.mp run
    have untouched := Prepared.untouched_of_foldlM wellFormed split rest
    refine ⟨state, first, ?_, untouched⟩
    rw [(untouched.agree wellFormed isStack).template]
    exact embeds.template
  case published => exact published
  case resolves =>
    intro leaf member
    obtain ⟨producer, origin, atTop⟩ := published.origin member
    obtain ⟨value, written⟩ :=
      Tree.exists_view_of_settled (embeds.reachable leaf member) origin
    exact ⟨producer, value, origin, atTop, written⟩

/-- A stack with two nested stacks, one in the other; the inner one reads a resource of the
outermost. -/
def deepReader : List BuildStep :=
  [.topLevelStack 0 "S" ⟨none, .unspecified⟩, .resource 1 "A" ⟨"Bucket", [], none⟩,
    .nestedStack 1 "N", .nestedStack 3 "M",
    .resource 4 "B" ⟨"Bucket", [("Source", .getAtt 2 "Arn")], none⟩]

/-- The inner stack is rendered before its address is wired through the outer one, and stays as it
was. -/
theorem deepReader_is_final :
    ∃ prepared started embedded hash,
      (build Asset.byPath deepReader).prepare Asset.byPath = .ok prepared ∧
        Prepared.start (build Asset.byPath deepReader) = .ok started ∧
        Prepared.Final (build Asset.byPath deepReader).tree Asset.byPath started prepared 4
          embedded 1 3 hash := by
  have prepares : ((build Asset.byPath deepReader).prepare Asset.byPath).isOk = true := by
    decide +kernel
  have isNested : (build Asset.byPath deepReader).tree.isNested 4 = true := by decide +kernel
  have outermost : (build Asset.byPath deepReader).tree.topLevelOf? 4 = some 1 := by
    decide +kernel
  have around : (build Asset.byPath deepReader).tree.parentStack? 4 = some 3 := by decide +kernel
  obtain ⟨prepared, ready⟩ := exists_of_isOk prepares
  obtain ⟨started, start, all⟩ := embedded_templates_are_final Asset.byPath deepReader ready
  obtain ⟨embedded, top, parent, hash, isFinal⟩ := all 4 isNested
  rw [Option.some.inj (isFinal.outermost.symm.trans outermost),
    Option.some.inj (isFinal.around.symm.trans around)] at isFinal
  exact ⟨prepared, started, embedded, hash, ready, start, isFinal⟩

end Application

end StackSynth
