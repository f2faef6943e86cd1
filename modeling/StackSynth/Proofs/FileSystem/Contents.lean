/-
This file says what a tree of files holds: at every location that leads somewhere an entry of some
kind, with its contents or its target. In which order a directory lists its entries is no part of
that, and the digest of a directory does not show it: its records are those of the locations, each
once, and they are sorted by paths, which tell locations apart.
-/

import StackSynth.FileSystem.Digest
import StackSynth.Proofs.Fields
import StackSynth.Proofs.Naming.Ids

namespace StackSynth.Entry

/-! ### Locations -/

/-- Every directory names each of its entries once, by a name that is not empty and has no
slash. -/
inductive Legal : Entry → Prop where
  | file (contents : ByteArray) : Legal (.file contents)
  | link (target : String) : Legal (.link target)
  | directory {entries : List (String × Entry)} (once : (Fields.names entries).Nodup)
    (usable : Naming.Usable (Fields.names entries))
    (each : ∀ item ∈ entries, Legal item.2) : Legal (.directory entries)

/-- An entry without what is below it. -/
def face : Entry → Entry
  | .directory _ => .directory []
  | other => other

/-- Two trees have the same at the same locations. -/
def HoldsSame (first second : Entry) : Prop :=
  ∀ location, (first.at? location).map face = (second.at? location).map face

/-- The order of entries is no part of what a directory holds. -/
theorem holdsSame_of_perm {entries others : List (String × Entry)} (perm : entries.Perm others)
    (once : (Fields.names entries).Nodup) :
    (Entry.directory entries).HoldsSame (.directory others) := by
  intro location
  cases location with
  | nil => rfl
  | cons name rest => rw [at?, at?, Fields.get?_of_perm perm once]

mutual

/-- What stands at and below an entry, each with its location. -/
def listing : Entry → List (List String × Entry)
  | .directory entries => ([], .directory []) :: listingBelow entries
  | .file contents => [([], .file contents)]
  | .link target => [([], .link target)]

/-- What stands in a directory and below, each with its location. -/
def listingBelow : List (String × Entry) → List (List String × Entry)
  | [] => []
  | (name, entry) :: rest =>
    (listing entry).map (fun item => (name :: item.1, item.2)) ++ listingBelow rest

end

variable {entry first second : Entry} {entries : List (String × Entry)} {name : String}
  {location : List String} {shape : Entry}

/-- What stands below a directory stands below one of its names. -/
theorem exists_of_mem_listingBelow (member : (location, shape) ∈ listingBelow entries) :
    ∃ name rest, location = name :: rest ∧ name ∈ Fields.names entries := by
  induction entries with
  | nil => cases member
  | cons item others inductionHypothesis =>
    obtain ⟨name, entry⟩ := item
    rw [listingBelow] at member
    rcases List.mem_append.mp member with here | later
    · obtain ⟨below, _, same⟩ := List.mem_map.mp here
      cases same
      exact ⟨name, below.1, rfl, List.mem_cons_self⟩
    · obtain ⟨other, rest, split, isName⟩ := inductionHypothesis later
      exact ⟨other, rest, split, List.mem_cons_of_mem _ isName⟩

mutual

/-- The listing has what can be reached. -/
theorem mem_listing (location : List String) (shape : Entry) : ∀ entry : Entry, entry.Legal →
    ((location, shape) ∈ entry.listing ↔ (entry.at? location).map face = some shape)
  | .file contents, _ => by
    cases location <;> simp [listing, at?, face, eq_comm]
  | .link target, _ => by
    cases location <;> simp [listing, at?, face, eq_comm]
  | .directory entries, legal => by
    cases legal with
    | directory once _ each =>
      rw [listing, List.mem_cons]
      cases location with
      | nil =>
        have noneBelow : ([], shape) ∉ listingBelow entries := by
          intro member
          obtain ⟨_, _, never, _⟩ := exists_of_mem_listingBelow member
          cases never
        simp [noneBelow, at?, face, eq_comm]
      | cons name rest =>
        rw [mem_listingBelow name rest shape entries once each]
        simp [at?]

theorem mem_listingBelow (name : String) (rest : List String) (shape : Entry) :
    ∀ entries : List (String × Entry), (Fields.names entries).Nodup →
      (∀ item ∈ entries, Legal item.2) → ((name :: rest, shape) ∈ listingBelow entries ↔
        ((Fields.get? name entries).bind (at? rest)).map face = some shape)
  | [], _, _ => by simp [listingBelow, Fields.get?]
  | (head, entry) :: others, once, each => by
    have onceOthers := (List.nodup_cons.mp once).2
    rw [listingBelow, List.mem_append, List.mem_map,
      mem_listingBelow name rest shape others onceOthers
        fun item member => each item (List.mem_cons_of_mem _ member), Fields.get?]
    have atHead := mem_listing rest shape entry (each _ List.mem_cons_self)
    by_cases here : head = name
    · subst here
      have notLater : Fields.get? head others = none := by
        have absent := Fields.has_eq_false_iff.mpr (List.nodup_cons.mp once).1
        simpa [Fields.has] using absent
      simp [notLater, ← atHead]
    · simp [here]

end

mutual

theorem nodup_listing : ∀ entry : Entry, entry.Legal → (entry.listing.map Prod.fst).Nodup
  | .file _, _ => List.nodup_singleton _
  | .link _, _ => List.nodup_singleton _
  | .directory entries, legal => by
    cases legal with
    | directory once _ each =>
      rw [listing, List.map_cons, List.nodup_cons]
      refine ⟨fun member => ?_, nodup_listingBelow entries once each⟩
      obtain ⟨⟨_, shape⟩, isListed, rfl⟩ := List.mem_map.mp member
      obtain ⟨_, _, never, _⟩ := exists_of_mem_listingBelow isListed
      cases never

theorem nodup_listingBelow : ∀ entries : List (String × Entry), (Fields.names entries).Nodup →
    (∀ item ∈ entries, Legal item.2) → ((listingBelow entries).map Prod.fst).Nodup
  | [], _, _ => .nil
  | (name, entry) :: others, once, each => by
    obtain ⟨isNew, onceOthers⟩ := List.nodup_cons.mp once
    have here := nodup_listing entry (each _ List.mem_cons_self)
    have later := nodup_listingBelow others onceOthers
      fun item member => each item (List.mem_cons_of_mem _ member)
    rw [listingBelow, List.map_append, List.map_map]
    refine List.nodup_append.mpr ⟨?_, later, ?_⟩
    · have prefixed : (listing entry).map (Prod.fst ∘ fun item => (name :: item.1, item.2)) =
          ((listing entry).map Prod.fst).map (name :: ·) := by
        rw [List.map_map]
        rfl
      rw [prefixed]
      exact here.map (List.cons_injective)
    · rintro location isHere _ isLater rfl
      obtain ⟨item, _, rfl⟩ := List.mem_map.mp isHere
      obtain ⟨⟨_, shape⟩, isListed, same⟩ := List.mem_map.mp isLater
      obtain ⟨other, rest, split, isName⟩ := exists_of_mem_listingBelow isListed
      cases same.symm.trans split
      exact isNew isName

end

/-- Trees that hold the same list the same. -/
theorem HoldsSame.perm_listing (same : first.HoldsSame second) (legal : first.Legal)
    (legalToo : second.Legal) : first.listing.Perm second.listing := by
  refine (List.perm_ext_iff_of_nodup (nodup_listing first legal).of_map
    (nodup_listing second legalToo).of_map).mpr fun item => ?_
  rw [mem_listing item.1 item.2 first legal, mem_listing item.1 item.2 second legalToo,
    same item.1]

/-! ### Records -/

/-- The record of an entry with its path. -/
def recordAt (path : String) (entry : Entry) : String × String := (path, record path entry)

theorem intercalate_append_head (start name : String) (rest : List String) :
    "/".intercalate ((start ++ name) :: rest) = start ++ "/".intercalate (name :: rest) := by
  cases rest with
  | nil => rw [String.intercalate_singleton, String.intercalate_singleton]
  | cons next further =>
    rw [String.intercalate_cons_cons, String.intercalate_cons_cons]
    simp only [String.append_assoc]

mutual

/-- The records are those of what is listed. -/
theorem records_eq (path : String) : ∀ entry : Entry, records [] path entry =
    entry.listing.map (fun item => recordAt ("/".intercalate (path :: item.1)) item.2)
  | .file contents => by simp [records, listing, recordAt, String.intercalate_singleton]
  | .link target => by simp [records, listing, recordAt, String.intercalate_singleton]
  | .directory entries => by
    rw [records, listing, List.map_cons, recordsBelow_eq, String.intercalate_singleton]
    congr 1
    refine List.map_congr_left fun item member => ?_
    obtain ⟨name, rest, split, _⟩ := exists_of_mem_listingBelow member
    rw [split, String.intercalate_cons_cons]

theorem recordsBelow_eq (start : String) : ∀ entries : List (String × Entry),
    recordsBelow [] start entries =
      (listingBelow entries).map (fun item => recordAt (start ++ "/".intercalate item.1) item.2)
  | [] => rfl
  | (name, entry) :: rest => by
    rw [recordsBelow, if_neg (by simp), records_eq (start ++ name) entry, recordsBelow_eq start rest,
      listingBelow, List.map_append, List.map_map]
    congr 1
    refine List.map_congr_left fun item _ => ?_
    simp only [Function.comp, intercalate_append_head]

end

/-- What lies at a location in a tree with legal names lies under such names. -/
theorem usable_of_at? (legal : entry.Legal) {other : Entry}
    (found : entry.at? location = some other) : Naming.Usable location := by
  induction location generalizing entry with
  | nil => exact fun _ never => nomatch never
  | cons name rest inductionHypothesis =>
    cases legal with
    | file => cases found
    | link => cases found
    | directory once usable each =>
      obtain ⟨child, known, below⟩ := Option.bind_eq_some_iff.mp found
      have member := Fields.mem_of_get? known
      have isUsable := usable name (List.mem_map.mpr ⟨_, member, rfl⟩)
      exact List.forall_mem_cons.mpr ⟨isUsable, inductionHypothesis (each _ member) below⟩

/-- Records are sorted in one way if they have different paths. -/
theorem sortRecords_of_perm {records recordsToo : List (String × String)}
    (perm : records.Perm recordsToo) (once : (records.map Prod.fst).Nodup) :
    sortRecords records = sortRecords recordsToo := by
  have sorted : ∀ some : List (String × String), (sortRecords some).Pairwise
      (fun first second => (compare first.1 second.1).isLE = true) := by
    intro some
    refine List.pairwise_mergeSort (fun _ _ _ => Std.TransCmp.isLE_trans) (fun first second => ?_) some
    have swapped : compare first.1 second.1 = (compare second.1 first.1).swap :=
      Std.OrientedCmp.eq_swap
    rw [swapped]
    cases compare second.1 first.1 <;> rfl
  have permSorted : (sortRecords records).Perm (sortRecords recordsToo) :=
    (List.mergeSort_perm _ _).trans (perm.trans (List.mergeSort_perm _ _).symm)
  refine permSorted.eq_of_pairwise ?_ (sorted _) (sorted _)
  intro first second isFirst isSecond before after
  have samePath : first.1 = second.1 :=
    Std.LawfulEqCmp.eq_of_compare (Std.OrientedCmp.isLE_antisymm before after)
  have isRecord : first ∈ records := List.mem_mergeSort.mp isFirst
  have isRecordToo : second ∈ records := perm.mem_iff.mpr (List.mem_mergeSort.mp isSecond)
  exact List.inj_on_of_nodup_map once isRecord isRecordToo samePath

/-- The records of a directory have different paths. -/
theorem nodup_paths_recordsBelow (legal : (Entry.directory entries).Legal) :
    ((recordsBelow [] "" entries).map Prod.fst).Nodup := by
  have once := nodup_listing _ legal
  rw [listing, List.map_cons, List.nodup_cons] at once
  rw [recordsBelow_eq, List.map_map]
  have paths : (listingBelow entries).map (Prod.fst ∘ fun item =>
      recordAt ("" ++ "/".intercalate item.1) item.2) =
      ((listingBelow entries).map Prod.fst).map ("/".intercalate ·) := by
    rw [List.map_map]
    refine List.map_congr_left fun item _ => ?_
    exact String.empty_append
  have usable : ∀ location ∈ (listingBelow entries).map Prod.fst, Naming.Usable location := by
    intro location member
    obtain ⟨⟨_, shape⟩, isListed, rfl⟩ := List.mem_map.mp member
    have reached := (mem_listing _ shape _ legal).mp (List.mem_cons_of_mem _ isListed)
    obtain ⟨other, found, _⟩ := Option.map_eq_some_iff.mp reached
    exact usable_of_at? legal found
  rw [paths]
  exact once.2.map_on fun first isFirst second isSecond same =>
    Naming.intercalate_injective (usable first isFirst) (usable second isSecond) same

/-- The digest of a directory tells nothing but what it holds. -/
theorem HoldsSame.digest_eq {others : List (String × Entry)}
    (same : (Entry.directory entries).HoldsSame (.directory others))
    (legal : (Entry.directory entries).Legal) (legalToo : (Entry.directory others).Legal) :
    (Entry.directory entries).digest [] = (Entry.directory others).digest [] := by
  have perm := same.perm_listing legal legalToo
  rw [listing, listing, List.perm_cons] at perm
  have permRecords : (recordsBelow [] "" entries).Perm (recordsBelow [] "" others) := by
    rw [recordsBelow_eq, recordsBelow_eq]
    exact perm.map _
  rw [digest, digest, digestRecords, digestRecords,
    sortRecords_of_perm permRecords (nodup_paths_recordsBelow legal)]

end StackSynth.Entry
