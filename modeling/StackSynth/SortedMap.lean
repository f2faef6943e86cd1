/-
This file holds maps whose entries stand in the order of their keys. Templates, manifests and
wiring states are written in key order, so the order belongs to the map and not to whoever prints
it: a map is its ascending list of entries, and two maps that answer every lookup alike are equal.
-/

namespace StackSynth

/-- A map as the list of its entries, keys strictly ascending. -/
structure SortedMap (κ : Type) (ν : Type) [Ord κ] where
  /-- The entries, smallest key first. -/
  entries : List (κ × ν)
  /-- No key is repeated and none is out of order. -/
  ascending : entries.Pairwise (fun first second => compare first.1 second.1 = .lt)

namespace SortedMap

variable {κ ν : Type} [Ord κ]

/-- Two maps with the same entries are the same map. -/
@[ext]
theorem ext_entries {first second : SortedMap κ ν} (same : first.entries = second.entries) :
    first = second := by
  cases first
  cases second
  cases same
  rfl

/-- The map without entries. -/
def empty : SortedMap κ ν := ⟨[], .nil⟩

instance : EmptyCollection (SortedMap κ ν) := ⟨empty⟩

instance : Inhabited (SortedMap κ ν) := ⟨empty⟩

instance [Repr κ] [Repr ν] : Repr (SortedMap κ ν) := ⟨fun map depth => reprPrec map.entries depth⟩

/-- The value under `key` in a list of entries, the first if several stand there. -/
def lookup (key : κ) : List (κ × ν) → Option ν
  | [] => none
  | entry :: rest => if compare key entry.1 = .eq then some entry.2 else lookup key rest

/-- The entries with `value` under `key`, at the place where `key` belongs. -/
def place (key : κ) (value : ν) : List (κ × ν) → List (κ × ν)
  | [] => [(key, value)]
  | entry :: rest =>
    match compare key entry.1 with
    | .lt => (key, value) :: entry :: rest
    | .eq => (key, value) :: rest
    | .gt => entry :: place key value rest

theorem mem_place {key : κ} {value : ν} {entry : κ × ν} {entries : List (κ × ν)}
    (member : entry ∈ place key value entries) : entry = (key, value) ∨ entry ∈ entries := by
  induction entries with
  | nil => simpa [place] using member
  | cons head rest inductionHypothesis =>
    rw [place] at member
    split at member
    · simpa using member
    · rcases List.mem_cons.mp member with equal | inRest
      · exact .inl equal
      · exact .inr (List.mem_cons_of_mem _ inRest)
    · rcases List.mem_cons.mp member with equal | inPlaced
      · exact .inr (equal ▸ List.mem_cons_self)
      · exact (inductionHypothesis inPlaced).imp id (List.mem_cons_of_mem _)

theorem place_ascending [Std.TransOrd κ] [Std.LawfulEqOrd κ] (key : κ) (value : ν)
    {entries : List (κ × ν)}
    (ascending : entries.Pairwise (fun first second => compare first.1 second.1 = .lt)) :
    (place key value entries).Pairwise
      (fun first second => compare first.1 second.1 = .lt) := by
  induction entries with
  | nil => simp [place]
  | cons head rest inductionHypothesis =>
    obtain ⟨headFirst, restAscending⟩ := List.pairwise_cons.mp ascending
    rw [place]
    split
    · rename_i before
      refine List.pairwise_cons.mpr ⟨fun entry member => ?_, ascending⟩
      rcases List.mem_cons.mp member with equal | inRest
      · exact equal ▸ before
      · exact Std.TransCmp.lt_trans before (headFirst entry inRest)
    · rename_i same
      refine List.pairwise_cons.mpr ⟨fun entry member => ?_, restAscending⟩
      rw [Std.LawfulEqCmp.eq_of_compare same]
      exact headFirst entry member
    · rename_i after
      refine List.pairwise_cons.mpr ⟨fun entry member => ?_, inductionHypothesis restAscending⟩
      rcases mem_place member with equal | inRest
      · exact equal ▸ Std.OrientedCmp.gt_iff_lt.mp after
      · exact headFirst entry inRest

/-- The value under `key`. -/
def get? (map : SortedMap κ ν) (key : κ) : Option ν := lookup key map.entries

/-- Whether there is a value under `key`. -/
def contains (map : SortedMap κ ν) (key : κ) : Bool := (map.get? key).isSome

/-- The keys, ascending. -/
def keys (map : SortedMap κ ν) : List κ := map.entries.map (·.1)

/-- The values, in the order of their keys. -/
def values (map : SortedMap κ ν) : List ν := map.entries.map (·.2)

/-- Whether there is no entry. -/
def isEmpty (map : SortedMap κ ν) : Bool := map.entries.isEmpty

/-- The number of entries. -/
def size (map : SortedMap κ ν) : Nat := map.entries.length

/-- The map in which every value is replaced by its image. -/
def mapValues {μ : Type} (image : ν → μ) (map : SortedMap κ ν) : SortedMap κ μ :=
  ⟨map.entries.map (fun entry => (entry.1, image entry.2)),
    List.pairwise_map.mpr map.ascending⟩

section Building

variable [Std.TransOrd κ] [Std.LawfulEqOrd κ]

/-- The map with `value` under `key`, whatever was there before. -/
def insert (map : SortedMap κ ν) (key : κ) (value : ν) : SortedMap κ ν :=
  ⟨place key value map.entries, place_ascending key value map.ascending⟩

/-- The map with `value` under `key` unless that key is taken. -/
def insertIfNew (map : SortedMap κ ν) (key : κ) (value : ν) : SortedMap κ ν :=
  if map.contains key then map else map.insert key value

/-- The map that holds, for every key of the list, the last value given for it. -/
def ofList (entries : List (κ × ν)) : SortedMap κ ν :=
  entries.foldl (fun map entry => map.insert entry.1 entry.2) ∅

end Building

/-! ### What each operation does to lookups -/

theorem lookup_place [Std.TransOrd κ] [Std.LawfulEqOrd κ] (key other : κ) (value : ν)
    (entries : List (κ × ν)) :
    lookup other (place key value entries) =
      if compare other key = .eq then some value else lookup other entries := by
  induction entries with
  | nil => simp [place, lookup]
  | cons head rest inductionHypothesis =>
    rw [place]
    split
    · simp [lookup]
    · rename_i same
      cases Std.LawfulEqCmp.eq_of_compare same
      simp only [lookup]
      split <;> rfl
    · rename_i after
      simp only [lookup, inductionHypothesis]
      by_cases atHead : compare other head.1 = .eq
      · cases Std.LawfulEqCmp.eq_of_compare atHead
        have apart : compare head.1 key ≠ .eq := by
          rw [Std.OrientedCmp.gt_iff_lt.mp after]
          decide
        simp [apart]
      · simp [atHead]

/-- A lookup after an insertion sees the new value under its key and the old ones elsewhere. -/
theorem get?_insert [Std.TransOrd κ] [Std.LawfulEqOrd κ] (map : SortedMap κ ν) (key other : κ)
    (value : ν) :
    (map.insert key value).get? other =
      if compare other key = .eq then some value else map.get? other :=
  lookup_place key other value map.entries

/-- A key below every entry has no value. -/
theorem lookup_of_below {key : κ} {entries : List (κ × ν)}
    (below : ∀ entry ∈ entries, compare key entry.1 = .lt) : lookup key entries = none := by
  induction entries with
  | nil => rfl
  | cons head rest inductionHypothesis =>
    rw [lookup, if_neg (by rw [below head List.mem_cons_self]; decide)]
    exact inductionHypothesis (fun entry member => below entry (List.mem_cons_of_mem _ member))

theorem entries_eq_of_lookup [Std.TransOrd κ] [Std.LawfulEqOrd κ] {first second : List (κ × ν)}
    (firstAscending : first.Pairwise (fun earlier later => compare earlier.1 later.1 = .lt))
    (secondAscending : second.Pairwise (fun earlier later => compare earlier.1 later.1 = .lt))
    (same : ∀ key, lookup key first = lookup key second) : first = second := by
  induction first generalizing second with
  | nil =>
    cases second with
    | nil => rfl
    | cons head rest => simpa [lookup] using same head.1
  | cons firstHead firstRest inductionHypothesis =>
    obtain ⟨firstBelow, firstTail⟩ := List.pairwise_cons.mp firstAscending
    cases second with
    | nil => simpa [lookup] using same firstHead.1
    | cons secondHead secondRest =>
      obtain ⟨secondBelow, secondTail⟩ := List.pairwise_cons.mp secondAscending
      cases order : compare firstHead.1 secondHead.1 with
      | lt =>
        have absent : lookup firstHead.1 (secondHead :: secondRest) = none :=
          lookup_of_below (fun entry member => (List.mem_cons.mp member).elim
            (fun equal => equal ▸ order)
            (fun inRest => Std.TransCmp.lt_trans order (secondBelow entry inRest)))
        rw [← same, lookup, if_pos Std.ReflCmp.compare_self] at absent
        cases absent
      | gt =>
        have before := Std.OrientedCmp.gt_iff_lt.mp order
        have absent : lookup secondHead.1 (firstHead :: firstRest) = none :=
          lookup_of_below (fun entry member => (List.mem_cons.mp member).elim
            (fun equal => equal ▸ before)
            (fun inRest => Std.TransCmp.lt_trans before (firstBelow entry inRest)))
        rw [same, lookup, if_pos Std.ReflCmp.compare_self] at absent
        cases absent
      | eq =>
        have sameKey := Std.LawfulEqCmp.eq_of_compare order
        have sameValue : firstHead.2 = secondHead.2 := by
          simpa [lookup, sameKey] using same firstHead.1
        have sameRest : firstRest = secondRest := by
          refine inductionHypothesis firstTail secondTail (fun key => ?_)
          by_cases atHead : compare key firstHead.1 = .eq
          · cases Std.LawfulEqCmp.eq_of_compare atHead
            rw [lookup_of_below firstBelow,
              lookup_of_below (fun entry member => sameKey ▸ secondBelow entry member)]
          · simpa [lookup, atHead, ← sameKey] using same key
        rw [sameRest, Prod.ext sameKey sameValue]

/-- Two maps that answer every lookup alike are the same map. -/
theorem ext_get? [Std.TransOrd κ] [Std.LawfulEqOrd κ] {first second : SortedMap κ ν}
    (same : ∀ key, first.get? key = second.get? key) : first = second :=
  ext_entries (entries_eq_of_lookup first.ascending second.ascending same)

@[simp]
theorem get?_empty (key : κ) : (∅ : SortedMap κ ν).get? key = none := rfl

theorem lookup_mapValues {μ : Type} (image : ν → μ) (key : κ) (entries : List (κ × ν)) :
    lookup key (entries.map (fun entry => (entry.1, image entry.2))) =
      (lookup key entries).map image := by
  induction entries with
  | nil => rfl
  | cons head rest inductionHypothesis =>
    simp only [List.map_cons, lookup]
    split
    · rfl
    · exact inductionHypothesis

@[simp]
theorem get?_mapValues {μ : Type} (image : ν → μ) (map : SortedMap κ ν) (key : κ) :
    (map.mapValues image).get? key = (map.get? key).map image :=
  lookup_mapValues image key map.entries

/-- What a lookup gives stands among the entries. -/
theorem mem_of_lookup [Std.LawfulEqOrd κ] {key : κ} {value : ν} {entries : List (κ × ν)}
    (found : lookup key entries = some value) : (key, value) ∈ entries := by
  induction entries with
  | nil => cases found
  | cons head rest inductionHypothesis =>
    rw [lookup] at found
    split at found
    · rename_i same
      cases Std.LawfulEqCmp.eq_of_compare same
      cases found
      exact List.mem_cons_self
    · exact List.mem_cons_of_mem _ (inductionHypothesis found)

/-- The entries of a map are what its lookups give. -/
theorem mem_entries [Std.LawfulEqOrd κ] {map : SortedMap κ ν} {key : κ} {value : ν} :
    (key, value) ∈ map.entries ↔ map.get? key = some value := by
  refine ⟨fun member => ?_, mem_of_lookup⟩
  obtain ⟨entries, ascending⟩ := map
  induction entries with
  | nil => cases member
  | cons head rest inductionHypothesis =>
    obtain ⟨below, ascendingRest⟩ := List.pairwise_cons.mp ascending
    rcases List.mem_cons.mp member with rfl | inRest
    · simp [get?, lookup]
    · have apart : compare key head.1 ≠ .eq := by
        intro same
        have before := below _ inRest
        cases Std.LawfulEqCmp.eq_of_compare same
        exact absurd (Std.ReflCmp.compare_self.symm.trans before) (by decide)
      rw [get?, lookup, if_neg apart]
      exact inductionHypothesis ascendingRest inRest

theorem contains_iff {map : SortedMap κ ν} {key : κ} :
    map.contains key = true ↔ ∃ value, map.get? key = some value := by
  rw [contains, Option.isSome_iff_exists]

theorem contains_mapValues {μ : Type} (image : ν → μ) (map : SortedMap κ ν) (key : κ) :
    (map.mapValues image).contains key = map.contains key := by
  rw [contains, get?_mapValues, Option.isSome_map, contains]

theorem keys_mapValues {μ : Type} (image : ν → μ) (map : SortedMap κ ν) :
    (map.mapValues image).keys = map.keys := by
  rw [keys, mapValues, List.map_map, keys]
  rfl

section Lookups

variable [Std.TransOrd κ] [Std.LawfulEqOrd κ]

theorem get?_insert_self (map : SortedMap κ ν) (key : κ) (value : ν) :
    (map.insert key value).get? key = some value := by
  rw [get?_insert, if_pos Std.ReflCmp.compare_self]

theorem get?_insert_of_ne {map : SortedMap κ ν} {key other : κ} {value : ν} (apart : other ≠ key) :
    (map.insert key value).get? other = map.get? other := by
  rw [get?_insert, if_neg (fun same => apart (Std.LawfulEqCmp.eq_of_compare same))]

theorem mapValues_insert {μ : Type} (image : ν → μ) (map : SortedMap κ ν) (key : κ) (value : ν) :
    (map.insert key value).mapValues image = (map.mapValues image).insert key (image value) := by
  refine ext_get? fun other => ?_
  rw [get?_mapValues, get?_insert, get?_insert, get?_mapValues]
  split <;> rfl

theorem contains_insert {map : SortedMap κ ν} {key other : κ} {value : ν} :
    (map.insert key value).contains other = true ↔ other = key ∨ map.contains other = true := by
  by_cases same : other = key
  · simp [contains, same, get?_insert_self]
  · simp [contains, same, get?_insert_of_ne same]

theorem contains_foldl_insert {entries : List (κ × ν)} {key : κ} : ∀ {map : SortedMap κ ν},
    (entries.foldl (fun map entry => map.insert entry.1 entry.2) map).contains key = true ↔
      (∃ value, (key, value) ∈ entries) ∨ map.contains key = true := by
  induction entries with
  | nil => simp
  | cons entry rest inductionHypothesis =>
    intro map
    obtain ⟨first, value⟩ := entry
    rw [List.foldl_cons, inductionHypothesis, contains_insert]
    constructor
    · rintro (⟨other, later⟩ | rfl | before)
      · exact .inl ⟨other, List.mem_cons_of_mem _ later⟩
      · exact .inl ⟨value, List.mem_cons_self⟩
      · exact .inr before
    · rintro (⟨other, member⟩ | before)
      · rcases List.mem_cons.mp member with same | later
        · exact .inr (.inl (congrArg Prod.fst same))
        · exact .inl ⟨other, later⟩
      · exact .inr (.inr before)

/-- A map made of a list has a value under the keys that are given one. -/
theorem contains_ofList {entries : List (κ × ν)} {key : κ} :
    (ofList entries).contains key = true ↔ ∃ value, (key, value) ∈ entries :=
  contains_foldl_insert.trans (or_iff_left (fun never => nomatch never))

/-- A map made of a list has only values that are given. -/
theorem mem_of_get?_ofList {entries : List (κ × ν)} {key : κ} {value : ν}
    (known : (ofList entries).get? key = some value) : (key, value) ∈ entries := by
  suffices general : ∀ map : SortedMap κ ν,
      (entries.foldl (fun map entry => map.insert entry.1 entry.2) map).get? key = some value →
        (key, value) ∈ entries ∨ map.get? key = some value by
    exact (general ∅ known).resolve_right (fun never => nomatch never)
  clear known
  induction entries with
  | nil => exact fun map known => .inr known
  | cons entry rest inductionHypothesis =>
    intro map known
    obtain ⟨first, other⟩ := entry
    rcases inductionHypothesis _ known with later | before
    · exact .inl (List.mem_cons_of_mem _ later)
    · by_cases here : key = first
      · subst here
        rw [get?_insert_self] at before
        exact .inl (Option.some.inj before ▸ List.mem_cons_self)
      · rw [get?_insert_of_ne here] at before
        exact .inr before

/-- An insertion that respects what is there leaves the value there, else the new one. -/
theorem get?_insertIfNew_self (map : SortedMap κ ν) (key : κ) (value : ν) :
    (map.insertIfNew key value).get? key = some ((map.get? key).getD value) := by
  rw [insertIfNew]
  cases found : map.get? key with
  | none => simp [contains, found, get?_insert_self]
  | some old => simp [contains, found]

theorem get?_insertIfNew_of_ne {map : SortedMap κ ν} {key other : κ} {value : ν}
    (apart : other ≠ key) : (map.insertIfNew key value).get? other = map.get? other := by
  rw [insertIfNew]
  split
  · rfl
  · exact get?_insert_of_ne apart

theorem contains_insertIfNew {map : SortedMap κ ν} {key other : κ} {value : ν} :
    (map.insertIfNew key value).contains other = true ↔
      other = key ∨ map.contains other = true := by
  rw [insertIfNew]
  split
  · rename_i taken
    exact ⟨.inr, fun known => known.elim (fun same => same ▸ taken) id⟩
  · exact contains_insert

/-- Inserting what is there changes nothing. -/
theorem insert_eq_self {map : SortedMap κ ν} {key : κ} {value : ν}
    (known : map.get? key = some value) : map.insert key value = map := by
  refine ext_get? fun other => ?_
  by_cases same : other = key
  · rw [same, get?_insert_self, known]
  · exact get?_insert_of_ne same

section Order

variable {map : SortedMap κ ν} {first second : κ} {value other : ν}

/-- Insertions that agree can change places. -/
theorem insert_comm (agree : first = second → value = other) :
    (map.insert first value).insert second other =
      (map.insert second other).insert first value := by
  refine ext_get? fun key => ?_
  by_cases atSecond : key = second
  · subst atSecond
    rw [get?_insert_self]
    by_cases atFirst : key = first
    · rw [atFirst, get?_insert_self, agree atFirst.symm]
    · rw [get?_insert_of_ne atFirst, get?_insert_self]
  · rw [get?_insert_of_ne atSecond]
    by_cases atFirst : key = first
    · rw [atFirst, get?_insert_self, get?_insert_self]
    · rw [get?_insert_of_ne atFirst, get?_insert_of_ne atFirst, get?_insert_of_ne atSecond]

/-- Insertions that respect what is there can change places if they agree. -/
theorem insertIfNew_comm (agree : first = second → value = other) :
    (map.insertIfNew first value).insertIfNew second other =
      (map.insertIfNew second other).insertIfNew first value := by
  by_cases same : first = second
  · rw [same, agree same]
  refine ext_get? fun key => ?_
  by_cases atSecond : key = second
  · subst atSecond
    rw [get?_insertIfNew_self, get?_insertIfNew_of_ne (Ne.symm same),
      get?_insertIfNew_of_ne (Ne.symm same), get?_insertIfNew_self]
  · rw [get?_insertIfNew_of_ne atSecond]
    by_cases atFirst : key = first
    · rw [atFirst, get?_insertIfNew_self, get?_insertIfNew_self, get?_insertIfNew_of_ne same]
    · rw [get?_insertIfNew_of_ne atFirst, get?_insertIfNew_of_ne atFirst,
        get?_insertIfNew_of_ne atSecond]

end Order

end Lookups

/-! ### Counting entries -/

theorem length_place {key : κ} {value : ν} {entries : List (κ × ν)}
    (absent : lookup key entries = none) :
    (place key value entries).length = entries.length + 1 := by
  induction entries with
  | nil => rfl
  | cons head rest inductionHypothesis =>
    rw [lookup] at absent
    split at absent
    · cases absent
    · rename_i apart
      rw [place]
      split
      · rfl
      · rename_i same
        exact absurd same apart
      · rw [List.length_cons, inductionHypothesis absent, List.length_cons]

/-- An insertion that respects what is there adds one entry or none. -/
theorem size_insertIfNew [Std.TransOrd κ] [Std.LawfulEqOrd κ] (map : SortedMap κ ν) (key : κ)
    (value : ν) :
    (map.insertIfNew key value).size = map.size + if map.contains key then 0 else 1 := by
  rw [insertIfNew]
  split
  · rfl
  · rename_i isNew
    exact length_place (by simpa [contains, get?] using isNew)

end SortedMap

end StackSynth
