/-
This file proves what becomes of the leaves of a deferred value. Resolving goes through the value
from left to right, as listing the leaves does, so the first leaf without a form in the stack
decides the error, and there is a result if there is no such leaf. The result is built like the
value: place by place it has the same functions, literals and names, and at the places of the
leaves stands what the view makes of them.
-/

import Mathlib.Data.List.Forall2
import StackSynth.Proofs.Deferred.Resolution

namespace StackSynth

open Outcome

/-! ### Parts and places -/

namespace Template.Value

/-- The values that a value is directly made of. -/
def parts : Value → List Value
  | .join _ parts => parts
  | .select _ items => [items]
  | .split _ source => [source]
  | .list items => items
  | .object members => members.map Prod.snd
  | _ => []

/-- What stands at a place, which tells the part to go to at every level. -/
def at? : List Nat → Value → Option Value
  | [], value => some value
  | index :: rest, value => value.parts[index]?.bind (at? rest)

end Template.Value

namespace Deferred

/-- The values that a deferred value is directly made of. -/
def parts : Deferred → List Deferred
  | .join _ parts => parts
  | .select _ items => [items]
  | .split _ source => [source]
  | .list items => items
  | .object members => members.map Prod.snd
  | _ => []

/-- What stands at a place in a deferred value. -/
def at? : List Nat → Deferred → Option Deferred
  | [], value => some value
  | index :: rest, value => value.parts[index]?.bind (at? rest)

/-- The place of the same part in a list with one more part in front. -/
def later : List Nat → List Nat
  | [] => []
  | index :: rest => (index + 1) :: rest

mutual

/-- The places of the leaves, from left to right. -/
def places : Deferred → List (List Nat)
  | .literal _ => []
  | .pseudo _ => []
  | .leaf _ => [[]]
  | .join _ parts => placesOfItems parts
  | .select _ items => (places items).map (0 :: ·)
  | .split _ source => (places source).map (0 :: ·)
  | .list items => placesOfItems items
  | .object members => placesOfMembers members

/-- The places of the leaves of items. -/
def placesOfItems : List Deferred → List (List Nat)
  | [] => []
  | item :: rest => (places item).map (0 :: ·) ++ (placesOfItems rest).map later

/-- The places of the leaves of members. -/
def placesOfMembers : List (String × Deferred) → List (List Nat)
  | [] => []
  | (_, value) :: rest => (places value).map (0 :: ·) ++ (placesOfMembers rest).map later

end

/-- A deferred value that is no leaf, but has parts. -/
def IsInner (value : Deferred) : Prop := ∀ leaf, value ≠ .leaf leaf

theorem sizeOf_part_lt {value part : Deferred} (isPart : part ∈ value.parts) :
    sizeOf part < sizeOf value := by
  cases value with
  | literal | pseudo | leaf => cases isPart
  | join separator parts =>
    have smaller : sizeOf part < sizeOf parts := List.sizeOf_lt_of_mem isPart
    rw [join.sizeOf_spec]
    omega
  | list items =>
    have smaller : sizeOf part < sizeOf items := List.sizeOf_lt_of_mem isPart
    rw [list.sizeOf_spec]
    omega
  | select index items =>
    cases List.mem_singleton.mp isPart
    rw [select.sizeOf_spec]
    omega
  | split separator source =>
    cases List.mem_singleton.mp isPart
    rw [split.sizeOf_spec]
    omega
  | object members =>
    obtain ⟨⟨name, value⟩, member, rfl⟩ := List.mem_map.mp isPart
    have smaller : 1 + sizeOf name + sizeOf value < sizeOf members := List.sizeOf_lt_of_mem member
    show sizeOf value < _
    rw [object.sizeOf_spec]
    omega

/-- What holds of a value if it holds of its parts holds of all values. -/
theorem part_induction {motive : Deferred → Prop}
    (step : ∀ value, (∀ part ∈ value.parts, motive part) → motive value) (value : Deferred) :
    motive value :=
  step value fun part _ => part_induction step part
termination_by sizeOf value
decreasing_by exact sizeOf_part_lt ‹_›

theorem leavesOfItems_eq (items : List Deferred) : leavesOfItems items = items.flatMap leaves := by
  induction items with
  | nil => rfl
  | cons item rest inductionHypothesis =>
    rw [leavesOfItems, inductionHypothesis, List.flatMap_cons]

theorem leavesOfMembers_eq (members : List (String × Deferred)) :
    leavesOfMembers members = (members.map Prod.snd).flatMap leaves := by
  induction members with
  | nil => rfl
  | cons member rest inductionHypothesis =>
    rw [leavesOfMembers, inductionHypothesis, List.map_cons, List.flatMap_cons]

theorem placesOfMembers_eq (members : List (String × Deferred)) :
    placesOfMembers members = placesOfItems (members.map Prod.snd) := by
  induction members with
  | nil => rfl
  | cons member rest inductionHypothesis =>
    rw [placesOfMembers, inductionHypothesis, List.map_cons, placesOfItems]

variable {value : Deferred}

/-- The leaves are those of the parts, one part after the other. -/
theorem leaves_of_isInner (isInner : value.IsInner) :
    value.leaves = value.parts.flatMap leaves := by
  cases value with
  | literal | pseudo => rfl
  | leaf produced => exact absurd rfl (isInner produced)
  | join separator parts => exact leavesOfItems_eq parts
  | list items => exact leavesOfItems_eq items
  | select index items => exact (List.flatMap_singleton leaves items).symm
  | split separator source => exact (List.flatMap_singleton leaves source).symm
  | object members => exact leavesOfMembers_eq members

/-- The places of the leaves lead into the parts. -/
theorem places_of_isInner (isInner : value.IsInner) :
    value.places = placesOfItems value.parts := by
  cases value with
  | literal | pseudo | join | list => rfl
  | leaf produced => exact absurd rfl (isInner produced)
  | select index items => exact (List.append_nil _).symm
  | split separator source => exact (List.append_nil _).symm
  | object members => exact placesOfMembers_eq members

/-! ### The places of the leaves -/

theorem ne_nil_of_mem_placesOfItems {items : List Deferred} {place : List Nat}
    (member : place ∈ placesOfItems items) : place ≠ [] := by
  induction items generalizing place with
  | nil => cases member
  | cons item rest inductionHypothesis =>
    rcases List.mem_append.mp member with inItem | inRest
    · obtain ⟨inner, _, rfl⟩ := List.mem_map.mp inItem
      exact List.cons_ne_nil _ _
    · obtain ⟨other, isPlace, rfl⟩ := List.mem_map.mp inRest
      cases other with
      | nil => exact absurd rfl (inductionHypothesis isPlace)
      | cons index inner => exact List.cons_ne_nil _ _

theorem mem_placesOfItems {items : List Deferred} {index : Nat} {inner : List Nat}
    {item : Deferred} (isItem : items[index]? = some item) (isPlace : inner ∈ item.places) :
    index :: inner ∈ placesOfItems items := by
  induction items generalizing index with
  | nil => cases isItem
  | cons first rest inductionHypothesis =>
    cases index with
    | zero =>
      cases isItem
      exact List.mem_append_left _ (List.mem_map_of_mem isPlace)
    | succ index =>
      exact List.mem_append_right _
        (List.mem_map.mpr ⟨_, inductionHypothesis isItem, rfl⟩)

theorem later_lt_later {first second : List Nat} (ordered : first < second) (some : first ≠ []) :
    later first < later second := by
  cases first with
  | nil => exact absurd rfl some
  | cons index inner =>
    cases second with
    | nil => cases ordered
    | cons other innerToo =>
      rw [later, later, List.cons_lt_cons_iff]
      rcases List.cons_lt_cons_iff.mp ordered with less | ⟨rfl, less⟩
      · exact .inl (Nat.succ_lt_succ less)
      · exact .inr ⟨rfl, less⟩

/-- Places come from left to right. -/
theorem pairwise_places (value : Deferred) : value.places.Pairwise (· < ·) := by
  induction value using part_induction with
  | step value inductionHypothesis =>
    by_cases isInner : value.IsInner
    · rw [places_of_isInner isInner]
      generalize value.parts = items at inductionHypothesis
      induction items with
      | nil => exact .nil
      | cons item rest inductionOnItems =>
        have here := inductionHypothesis item List.mem_cons_self
        have behind := inductionOnItems fun part isPart =>
          inductionHypothesis part (List.mem_cons_of_mem _ isPart)
        rw [placesOfItems, List.pairwise_append]
        refine ⟨?_, ?_, ?_⟩
        · exact here.map _ fun first second ordered => by
            rw [List.cons_lt_cons_iff]
            exact .inr ⟨rfl, ordered⟩
        · rw [List.pairwise_map]
          exact behind.imp_of_mem fun isFirst _ ordered =>
            later_lt_later ordered (ne_nil_of_mem_placesOfItems isFirst)
        · intro first isFirst second isSecond
          obtain ⟨inner, _, rfl⟩ := List.mem_map.mp isFirst
          obtain ⟨other, isPlace, rfl⟩ := List.mem_map.mp isSecond
          cases other with
          | nil => exact absurd rfl (ne_nil_of_mem_placesOfItems isPlace)
          | cons index innerToo =>
            rw [later, List.cons_lt_cons_iff]
            exact .inl (Nat.succ_pos index)
    · obtain ⟨leaf, rfl⟩ := not_forall_not.mp isInner
      exact List.pairwise_singleton _ _

/-- Looks in the part that the beginning of a place tells. -/
def within {α : Type} (looks : List (List Nat → Option α)) : List Nat → Option α
  | [] => none
  | index :: rest => looks[index]?.bind (· rest)

/-- What is met at the places of leaves, part by part, is met at all of them. -/
theorem map_placesOfItems {α : Type} {image : Leaf → Option α} {items : List Deferred}
    {looks : List (List Nat → Option α)}
    (each : List.Forall₂ (fun item look => item.places.map look = item.leaves.map image) items
      looks) : (placesOfItems items).map (within looks) = (items.flatMap leaves).map image := by
  induction each with
  | nil => rfl
  | @cons item look items looks here _ inductionHypothesis =>
    rw [placesOfItems, List.map_append, List.map_map, List.map_map, List.flatMap_cons,
      List.map_append, ← here, ← inductionHypothesis]
    congr 1
    refine List.map_congr_left fun place _ => ?_
    cases place <;> rfl

theorem at?_eq_within {place : List Nat} (some : place ≠ []) (value : Deferred) :
    value.at? place = within (value.parts.map fun part inner => part.at? inner) place := by
  cases place with
  | nil => exact absurd rfl some
  | cons index rest =>
    rw [at?, within, List.getElem?_map, Option.bind_map]
    rfl

/-- At the places of the leaves stand the leaves. -/
theorem map_at?_places (value : Deferred) :
    value.places.map (fun place => value.at? place) =
      value.leaves.map fun leaf => some (Deferred.leaf leaf) := by
  induction value using part_induction with
  | step value inductionHypothesis =>
    by_cases isInner : value.IsInner
    · rw [places_of_isInner isInner, leaves_of_isInner isInner]
      have each : List.Forall₂ (fun (part : Deferred) (look : List Nat → Option Deferred) =>
          part.places.map look = part.leaves.map fun leaf => some (Deferred.leaf leaf))
          value.parts (value.parts.map fun part inner => part.at? inner) := by
        rw [List.forall₂_map_right_iff, List.forall₂_same]
        exact inductionHypothesis
      rw [← map_placesOfItems each]
      refine List.map_congr_left fun place isPlace => ?_
      exact at?_eq_within (ne_nil_of_mem_placesOfItems isPlace) value
    · obtain ⟨leaf, rfl⟩ := not_forall_not.mp isInner
      rfl

theorem mem_places_of_at? {place : List Nat} {leaf : Leaf}
    (stands : value.at? place = some (.leaf leaf)) : place ∈ value.places := by
  induction place generalizing value with
  | nil =>
    cases stands
    exact List.mem_singleton_self []
  | cons index rest inductionHypothesis =>
    obtain ⟨part, isPart, standsInPart⟩ := Option.bind_eq_some_iff.mp stands
    have isInner : value.IsInner := by
      rintro leaf rfl
      cases isPart
    rw [places_of_isInner isInner]
    exact mem_placesOfItems isPart (inductionHypothesis standsInPart)

/-- Places are listed from left to right, and they are those of the leaves. -/
structure LeafPlaces (value : Deferred) (places : List (List Nat)) : Prop where
  ascending : places.Pairwise (· < ·)
  complete : ∀ place, place ∈ places ↔ ∃ produced, value.at? place = some (.leaf produced)
  inOrder : places.map (fun place => value.at? place) =
    value.leaves.map fun produced => some (Deferred.leaf produced)

theorem leafPlaces_places (value : Deferred) : value.LeafPlaces value.places where
  ascending := pairwise_places value
  complete place := by
    refine ⟨fun member => ?_, fun ⟨produced, stands⟩ => mem_places_of_at? stands⟩
    have met : value.at? place ∈ value.leaves.map (fun produced => some (.leaf produced)) := by
      rw [← map_at?_places]
      exact List.mem_map_of_mem member
    obtain ⟨produced, _, stands⟩ := List.mem_map.mp met
    exact ⟨produced, stands.symm⟩
  inOrder := map_at?_places value

section First

variable {places : List (List Nat)} {produced first second : Leaf}

/-- A leaf stands at a place in a value, and at none before it. -/
structure FirstAt (value : Deferred) (produced : Leaf) (place : List Nat) : Prop where
  stands : value.at? place = some (.leaf produced)
  first : ∀ other, value.at? other = some (.leaf produced) → ¬other < place

/-- A leaf that is listed stands first at the place that is listed with its first occurrence. -/
theorem LeafPlaces.exists_firstAt (arePlaces : value.LeafPlaces places)
    (isLeaf : produced ∈ value.leaves) : ∃ inPlaces : value.leaves.idxOf produced < places.length,
      value.FirstAt produced places[value.leaves.idxOf produced] := by
  have sameLength : places.length = value.leaves.length := by
    simpa using congrArg List.length arePlaces.inOrder
  have standsAt : ∀ {index : Nat} (inPlaces : index < places.length)
      (inLeaves : index < value.leaves.length),
      value.at? places[index] = some (.leaf value.leaves[index]) := by
    intro index inPlaces inLeaves
    simpa [inPlaces, inLeaves] using congrArg (·[index]?) arePlaces.inOrder
  have inLeaves := List.idxOf_lt_length_of_mem isLeaf
  have inPlaces : value.leaves.idxOf produced < places.length := sameLength ▸ inLeaves
  refine ⟨inPlaces, by rw [standsAt inPlaces inLeaves, List.getElem_idxOf], ?_⟩
  intro other stands before
  obtain ⟨index, inPlacesToo, rfl⟩ :=
    List.getElem_of_mem ((arePlaces.complete other).mpr ⟨_, stands⟩)
  have inLeavesToo : index < value.leaves.length := sameLength ▸ inPlacesToo
  have same : value.leaves[index] = produced :=
    Deferred.leaf.inj (Option.some.inj ((standsAt inPlacesToo inLeavesToo).symm.trans stands))
  -- an occurrence is not listed before the first one, so its place does not come before either
  have notEarlier : value.leaves.idxOf produced < index + 1 := by
    rw [← List.mem_take_iff_idxOf_lt isLeaf, List.mem_take_iff_getElem]
    exact ⟨index, Nat.lt_min.mpr ⟨Nat.lt_succ_self index, inLeavesToo⟩, same⟩
  rcases Nat.lt_succ_iff_lt_or_eq.mp notEarlier with earlier | atIndex
  · exact List.lt_asymm before
      (List.pairwise_iff_getElem.mp arePlaces.ascending _ _ inPlaces inPlacesToo earlier)
  · simp only [atIndex] at before
    exact List.lt_irrefl _ before

/-- Of two leaves the one that is listed first stands first. -/
theorem exists_firstAt_lt (value : Deferred) (isFirst : first ∈ value.leaves)
    (isSecond : second ∈ value.leaves)
    (earlier : value.leaves.idxOf first < value.leaves.idxOf second) :
    ∃ place placeToo, value.FirstAt first place ∧ value.FirstAt second placeToo ∧
      place < placeToo := by
  have arePlaces := leafPlaces_places value
  obtain ⟨inPlaces, atFirst⟩ := arePlaces.exists_firstAt isFirst
  obtain ⟨inPlacesToo, atSecond⟩ := arePlaces.exists_firstAt isSecond
  exact ⟨_, _, atFirst, atSecond,
    List.pairwise_iff_getElem.mp arePlaces.ascending _ _ inPlaces inPlacesToo earlier⟩

end First

/-! ### Resolving part by part -/

section

variable {ε : Type} {view : Leaf → Except ε Template.Value} {result : Template.Value} {cause : ε}

/-- A template value is built like a deferred one, up to what their parts are. -/
inductive Mirrors : Deferred → Template.Value → Prop where
  | literal (value : Json) : Mirrors (.literal value) (.literal value)
  | pseudo (parameter : PseudoParameter) : Mirrors (.pseudo parameter) (.ref parameter.name)
  | join {separator : String} {parts : List Deferred} {results : List Template.Value}
    (sameLength : parts.length = results.length) :
    Mirrors (.join separator parts) (.join separator results)
  | select (index : Nat) (items : Deferred) (result : Template.Value) :
    Mirrors (.select index items) (.select index result)
  | split (separator : String) (source : Deferred) (result : Template.Value) :
    Mirrors (.split separator source) (.split separator result)
  | list {items : List Deferred} {results : List Template.Value}
    (sameLength : items.length = results.length) : Mirrors (.list items) (.list results)
  | object {members : List (String × Deferred)} {results : List (String × Template.Value)}
    (sameNames : members.map Prod.fst = results.map Prod.fst) :
    Mirrors (.object members) (.object results)

theorem forall₂_of_resolveItems {items : List Deferred} {results : List Template.Value}
    (done : resolveItems view items = .ok results) :
    List.Forall₂ (fun item result => item.resolve view = .ok result) items results := by
  induction items generalizing results with
  | nil =>
    cases done
    exact .nil
  | cons item rest inductionHypothesis =>
    obtain ⟨first, doneItem, done⟩ := bind_eq_ok.mp done
    obtain ⟨others, doneRest, same⟩ := bind_eq_ok.mp done
    cases same
    exact .cons doneItem (inductionHypothesis doneRest)

theorem forall₂_of_resolveMembers {members : List (String × Deferred)}
    {results : List (String × Template.Value)}
    (done : resolveMembers view members = .ok results) :
    members.map Prod.fst = results.map Prod.fst ∧
      List.Forall₂ (fun part result => part.resolve view = .ok result) (members.map Prod.snd)
        (results.map Prod.snd) := by
  induction members generalizing results with
  | nil =>
    cases done
    exact ⟨rfl, .nil⟩
  | cons member rest inductionHypothesis =>
    obtain ⟨first, doneMember, done⟩ := bind_eq_ok.mp done
    obtain ⟨others, doneRest, same⟩ := bind_eq_ok.mp done
    cases same
    obtain ⟨sameNames, each⟩ := inductionHypothesis doneRest
    exact ⟨congrArg (member.1 :: ·) sameNames, .cons doneMember each⟩

/-- A result is built like the value, and its parts are the results of the parts. -/
theorem mirrors_of_resolve (isInner : value.IsInner) (done : value.resolve view = .ok result) :
    value.Mirrors result ∧
      List.Forall₂ (fun part result => part.resolve view = .ok result) value.parts
        result.parts := by
  cases value with
  | literal value =>
    cases done
    exact ⟨.literal value, .nil⟩
  | pseudo parameter =>
    cases done
    exact ⟨.pseudo parameter, .nil⟩
  | leaf produced => exact absurd rfl (isInner produced)
  | join separator parts =>
    obtain ⟨results, doneParts, same⟩ := bind_eq_ok.mp done
    cases same
    have each := forall₂_of_resolveItems doneParts
    exact ⟨.join each.length_eq, each⟩
  | list items =>
    obtain ⟨results, doneItems, same⟩ := bind_eq_ok.mp done
    cases same
    have each := forall₂_of_resolveItems doneItems
    exact ⟨.list each.length_eq, each⟩
  | select index items =>
    obtain ⟨only, doneItems, same⟩ := bind_eq_ok.mp done
    cases same
    exact ⟨.select index items only, .cons doneItems .nil⟩
  | split separator source =>
    obtain ⟨only, doneSource, same⟩ := bind_eq_ok.mp done
    cases same
    exact ⟨.split separator source only, .cons doneSource .nil⟩
  | object members =>
    obtain ⟨results, doneMembers, same⟩ := bind_eq_ok.mp done
    cases same
    obtain ⟨sameNames, each⟩ := forall₂_of_resolveMembers doneMembers
    exact ⟨.object sameNames, each⟩

/-- A template value is a deferred one with what a view makes of the leaves in their places. -/
structure FilledIn (view : Leaf → Except ε Template.Value) (value : Deferred)
    (places : List (List Nat)) (result : Template.Value) : Prop where
  /-- At the places of the leaves stand their results, in the order of the leaves. -/
  results : places.map (fun place => result.at? place) =
    value.leaves.map fun produced => (view produced).toOption
  /-- All else is built like the value. -/
  inner : ∀ place part, value.at? place = some part → part.IsInner →
    ∃ other, result.at? place = some other ∧ part.Mirrors other

theorem map_at?_places_of_resolve (done : value.resolve view = .ok result) :
    value.places.map (fun place => result.at? place) =
      value.leaves.map fun produced => (view produced).toOption := by
  induction value using part_induction generalizing result with
  | step value inductionHypothesis =>
    by_cases isInner : value.IsInner
    · have resolved := (mirrors_of_resolve isInner done).2
      have each : List.Forall₂ (fun (part : Deferred) (look : List Nat → Option Template.Value) =>
          part.places.map look = part.leaves.map fun produced => (view produced).toOption)
          value.parts (result.parts.map fun part inner => part.at? inner) := by
        rw [List.forall₂_map_right_iff]
        have both := (List.forall₂_and_left _ _).mpr ⟨inductionHypothesis, resolved⟩
        exact both.imp fun _ _ known => known.1 known.2
      rw [places_of_isInner isInner, leaves_of_isInner isInner, ← map_placesOfItems each]
      refine List.map_congr_left fun place isPlace => ?_
      cases place with
      | nil => exact absurd rfl (ne_nil_of_mem_placesOfItems isPlace)
      | cons index rest =>
        rw [Template.Value.at?, within, List.getElem?_map, Option.bind_map]
        rfl
    · obtain ⟨produced, rfl⟩ := not_forall_not.mp isInner
      have viewed : view produced = .ok result := done
      rw [places, leaves, List.map_singleton, List.map_singleton, viewed]
      rfl

theorem mirrors_at? {place : List Nat} {part : Deferred} (done : value.resolve view = .ok result)
    (stands : value.at? place = some part) (isInner : part.IsInner) :
    ∃ other, result.at? place = some other ∧ part.Mirrors other := by
  induction place generalizing value result with
  | nil =>
    cases stands
    exact ⟨result, rfl, (mirrors_of_resolve isInner done).1⟩
  | cons index rest inductionHypothesis =>
    obtain ⟨next, isPart, standsInPart⟩ := Option.bind_eq_some_iff.mp stands
    have enters : value.IsInner := by
      rintro produced rfl
      cases isPart
    obtain ⟨sameLength, each⟩ := List.forall₂_iff_get.mp (mirrors_of_resolve enters done).2
    obtain ⟨inParts, rfl⟩ := List.getElem?_eq_some_iff.mp isPart
    have inResults := sameLength ▸ inParts
    obtain ⟨other, standsThere, mirrors⟩ :=
      inductionHypothesis (each index inParts inResults) standsInPart
    refine ⟨other, Option.bind_eq_some_iff.mpr ⟨_, ?_, standsThere⟩, mirrors⟩
    exact List.getElem?_eq_getElem inResults

/-! ### The first failure -/

/-- The first of several leaves that has no form fails for a reason. -/
def FailsFirst (view : Leaf → Except ε Template.Value) (cause : ε) (leaves : List Leaf) : Prop :=
  ∃ before produced after, leaves = before ++ produced :: after ∧
    (∀ earlier ∈ before, ∃ written, view earlier = .ok written) ∧ view produced = .error cause

theorem not_failsFirst_nil : ¬FailsFirst view cause [] := by
  rintro ⟨before, produced, after, split, _⟩
  cases before <;> cases split

/-- One leaf fails, or it has a form and the others fail. -/
theorem failsFirst_cons {produced : Leaf} {rest : List Leaf} :
    FailsFirst view cause (produced :: rest) ↔ view produced = .error cause ∨
      (∃ written, view produced = .ok written) ∧ FailsFirst view cause rest := by
  constructor
  · rintro ⟨before, other, after, split, allBefore, fails⟩
    cases before with
    | nil =>
      cases split
      exact .inl fails
    | cons first before =>
      cases split
      obtain ⟨here, others⟩ := List.forall_mem_cons.mp allBefore
      exact .inr ⟨here, before, other, after, rfl, others, fails⟩
  · rintro (fails | ⟨here, before, other, after, rfl, others, fails⟩)
    · exact ⟨[], produced, rest, rfl, List.forall_mem_nil _, fails⟩
    · exact ⟨produced :: before, other, after, rfl, List.forall_mem_cons.mpr ⟨here, others⟩, fails⟩

/-- Leaves fail among the first of them, or all of these have forms and the others fail. -/
theorem failsFirst_append {front back : List Leaf} :
    FailsFirst view cause (front ++ back) ↔ FailsFirst view cause front ∨
      (∀ produced ∈ front, ∃ written, view produced = .ok written) ∧
        FailsFirst view cause back := by
  induction front with
  | nil => simp [not_failsFirst_nil]
  | cons produced rest inductionHypothesis =>
    rw [List.cons_append, failsFirst_cons, failsFirst_cons, inductionHypothesis,
      List.forall_mem_cons, and_or_left, or_assoc, and_assoc]

/-- Some leaf fails first if one has no form. -/
theorem exists_failsFirst {leaves : List Leaf}
    (missing : ¬∀ produced ∈ leaves, ∃ written, view produced = .ok written) :
    ∃ cause, FailsFirst view cause leaves := by
  induction leaves with
  | nil => exact absurd (fun _ never => nomatch never) missing
  | cons produced rest inductionHypothesis =>
    cases viewed : view produced with
    | error cause => exact ⟨cause, failsFirst_cons.mpr (.inl viewed)⟩
    | ok written =>
      obtain ⟨cause, fails⟩ := inductionHypothesis fun all =>
        missing (List.forall_mem_cons.mpr ⟨⟨written, viewed⟩, all⟩)
      exact ⟨cause, failsFirst_cons.mpr (.inr ⟨⟨written, viewed⟩, fails⟩)⟩

theorem not_failsFirst {leaves : List Leaf}
    (all : ∀ produced ∈ leaves, ∃ written, view produced = .ok written) :
    ¬FailsFirst view cause leaves := by
  rintro ⟨before, produced, after, rfl, _, fails⟩
  obtain ⟨written, viewed⟩ := all produced (List.mem_append_right _ List.mem_cons_self)
  cases viewed.symm.trans fails

/-- What fails exactly with the first leaf that fails has a result exactly if all leaves do. -/
theorem exists_ok_iff {α : Type} {outcome : Except ε α} {leaves : List Leaf}
    (fails : ∀ cause, outcome = .error cause ↔ FailsFirst view cause leaves) :
    (∃ done, outcome = .ok done) ↔ ∀ produced ∈ leaves, ∃ written, view produced = .ok written := by
  constructor
  · rintro ⟨done, isDone⟩
    by_contra missing
    obtain ⟨cause, failsFirst⟩ := exists_failsFirst missing
    cases isDone.symm.trans ((fails cause).mpr failsFirst)
  · intro all
    cases isDone : outcome with
    | ok done => exact ⟨done, rfl⟩
    | error cause => exact absurd ((fails cause).mp isDone) (not_failsFirst all)

theorem bind_pure_eq_error {α β : Type} {first : Except ε α} {wrap : α → β} :
    (first >>= fun done => pure (wrap done)) = .error cause ↔ first = .error cause := by
  rw [bind_eq_error]
  refine ⟨fun either => either.elim id fun ⟨_, _, never⟩ => absurd never pure_ne_error, .inl⟩

/-- One part behind another fails with the first of their leaves that fails. -/
theorem sequence_eq_error {α β γ : Type} {first : Except ε α} {second : Except ε β}
    {join : α → β → γ} {front back : List Leaf}
    (failsFirst : ∀ cause, first = .error cause ↔ FailsFirst view cause front)
    (failsThen : ∀ cause, second = .error cause ↔ FailsFirst view cause back) (cause : ε) :
    (first >>= fun done => second >>= fun doneToo => pure (join done doneToo)) = .error cause ↔
      FailsFirst view cause (front ++ back) := by
  rw [bind_eq_error, failsFirst_append, failsFirst, ← failsThen, ← exists_ok_iff failsFirst]
  simp only [bind_pure_eq_error, exists_and_right]

mutual

/-- A value fails exactly with the first of its leaves that fails. -/
theorem resolve_eq_error : ∀ (value : Deferred) (cause : ε),
    value.resolve view = .error cause ↔ FailsFirst view cause value.leaves
  | .literal _, _ => iff_of_false (fun never => nomatch never) not_failsFirst_nil
  | .pseudo _, _ => iff_of_false (fun never => nomatch never) not_failsFirst_nil
  | .leaf produced, cause => by
    rw [leaves, failsFirst_cons, resolve]
    exact ⟨.inl, fun either => either.elim id fun both => absurd both.2 not_failsFirst_nil⟩
  | .join _ parts, cause => bind_pure_eq_error.trans (resolveItems_eq_error parts cause)
  | .select _ items, cause => bind_pure_eq_error.trans (resolve_eq_error items cause)
  | .split _ source, cause => bind_pure_eq_error.trans (resolve_eq_error source cause)
  | .list items, cause => bind_pure_eq_error.trans (resolveItems_eq_error items cause)
  | .object members, cause => bind_pure_eq_error.trans (resolveMembers_eq_error members cause)

theorem resolveItems_eq_error : ∀ (items : List Deferred) (cause : ε),
    resolveItems view items = .error cause ↔ FailsFirst view cause (leavesOfItems items)
  | [], _ => iff_of_false (fun never => nomatch never) not_failsFirst_nil
  | item :: rest, cause =>
    sequence_eq_error (resolve_eq_error item) (resolveItems_eq_error rest) cause

theorem resolveMembers_eq_error : ∀ (members : List (String × Deferred)) (cause : ε),
    resolveMembers view members = .error cause ↔ FailsFirst view cause (leavesOfMembers members)
  | [], _ => iff_of_false (fun never => nomatch never) not_failsFirst_nil
  | (_, value) :: rest, cause =>
    sequence_eq_error (resolve_eq_error value) (resolveMembers_eq_error rest) cause

end

/-- Resolving looks at the leaves and at nothing else: views that agree on them give the same, there
is a result if each of them has a form, otherwise the error is that of the first one without, and in
a result their forms stand at their places, once for each, from left to right. -/
theorem resolution_goes_by_leaves (value : Deferred) (view : Leaf → Except ε Template.Value) :
    (∀ other : Leaf → Except ε Template.Value,
      (∀ produced ∈ value.leaves, view produced = other produced) →
        value.resolve view = value.resolve other) ∧
    ((∃ result, value.resolve view = .ok result) ↔
      ∀ produced ∈ value.leaves, ∃ written, view produced = .ok written) ∧
    (∀ cause, value.resolve view = .error cause ↔ FailsFirst view cause value.leaves) ∧
    ∃ places, value.LeafPlaces places ∧
      ∀ result, value.resolve view = .ok result → value.FilledIn view places result := by
  refine ⟨fun other agree => resolve_congr value agree, exists_ok_iff (resolve_eq_error value),
    resolve_eq_error value, value.places, leafPlaces_places value, fun result done => ?_⟩
  exact ⟨map_at?_places_of_resolve done, fun _ _ stands isInner => mirrors_at? done stands isInner⟩

end

/-- A value with leaves at several depths. -/
def nestedLeaves : Deferred :=
  .list [.join "" [.reference 3, .pseudo .accountId],
    .object [("arn", .getAtt 5 "Arn"), ("name", .text "fixed")], .leaf (.stack 1 .name)]

example : nestedLeaves.places = [[0, 0], [1, 0], [2]] := by decide

/-- Leaves as parameters of their own names. -/
def asParameters (produced : Leaf) : Except String Template.Value := .ok (.ref produced.text)

/-- Leaves as parameters of their own names, but for the identities of stacks. -/
def asOwnParameters (produced : Leaf) : Except String Template.Value :=
  match produced with
  | .stack _ _ => .error produced.text
  | _ => asParameters produced

theorem nestedLeaves_go_by_leaves :
    (∃ result places, nestedLeaves.resolve asParameters = .ok result ∧
      nestedLeaves.LeafPlaces places ∧ nestedLeaves.FilledIn asParameters places result) ∧
    nestedLeaves.resolve asOwnParameters = .error "#1.Name" := by
  constructor
  · obtain ⟨_, there, _, places, arePlaces, fills⟩ :=
      resolution_goes_by_leaves nestedLeaves asParameters
    obtain ⟨result, done⟩ := there.mpr fun produced _ => ⟨_, rfl⟩
    exact ⟨result, places, done, arePlaces, fills result done⟩
  · refine ((resolution_goes_by_leaves nestedLeaves asOwnParameters).2.2.1 _).mpr ?_
    refine ⟨[.construct 3 "Ref", .construct 5 "Arn"], .stack 1 .name, [], rfl, ?_, rfl⟩
    exact List.forall_mem_cons.mpr ⟨⟨_, rfl⟩, List.forall_mem_singleton.mpr ⟨_, rfl⟩⟩

end Deferred

end StackSynth
