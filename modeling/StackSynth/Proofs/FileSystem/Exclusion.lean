/-
This file proves what excluding names from the digest of a directory means: the entries of these
names are as good as deleted, wherever they are, and so is all below them. Neither the place of the
directory nor the order of its entries matters. The exception is the directory itself. A path that
ends in an excluded name leads to nothing, unless the name is that of a link, so the directory has
the digest of an empty one.
-/

import StackSynth.Proofs.Asset.Identity
import StackSynth.Proofs.FileSystem.Contents

namespace StackSynth

open Outcome

namespace Entry

/-! ### Deleting names -/

mutual

/-- The tree without the entries of excluded names, and without all below them. -/
def without (exclude : List String) : Entry → Entry
  | .directory entries => .directory (withoutBelow exclude entries)
  | .file contents => .file contents
  | .link target => .link target

/-- `without` of every entry that is left. -/
def withoutBelow (exclude : List String) : List (String × Entry) → List (String × Entry)
  | [] => []
  | (name, entry) :: rest =>
    if exclude.contains name then withoutBelow exclude rest
    else (name, without exclude entry) :: withoutBelow exclude rest

end

variable {exclude : List String} {entry : Entry} {entries : List (String × Entry)}

/-- What is left of a directory are the entries whose names are not excluded. -/
theorem withoutBelow_eq (exclude : List String) (entries : List (String × Entry)) :
    withoutBelow exclude entries = (entries.filter (fun item => item.1 ∉ exclude)).map
      (fun item => (item.1, item.2.without exclude)) := by
  induction entries with
  | nil => rfl
  | cons item rest inductionHypothesis =>
    rw [withoutBelow, inductionHypothesis]
    by_cases isExcluded : item.1 ∈ exclude <;> simp [isExcluded]

/-- An excluded name is gone, and what stands under another one is kept up to what it holds. -/
theorem get?_withoutBelow (exclude : List String) (name : String)
    (entries : List (String × Entry)) : Fields.get? name (withoutBelow exclude entries) =
      if name ∈ exclude then none else (Fields.get? name entries).map (without exclude) := by
  induction entries with
  | nil =>
    rw [withoutBelow, Fields.get?, Option.map_none, ite_self]
  | cons item rest inductionHypothesis =>
    obtain ⟨other, entry⟩ := item
    rw [withoutBelow, Fields.get?]
    by_cases isExcluded : other ∈ exclude
    · rw [if_pos (List.contains_iff_mem.mpr isExcluded), inductionHypothesis]
      by_cases atHead : other = name
      · rw [if_pos (atHead ▸ isExcluded), if_pos (atHead ▸ isExcluded)]
      · rw [if_neg atHead]
    · rw [if_neg (mt List.contains_iff_mem.mp isExcluded), Fields.get?, inductionHypothesis]
      by_cases atHead : other = name
      · rw [if_pos atHead, if_pos atHead, if_neg (atHead ▸ isExcluded), Option.map_some]
      · rw [if_neg atHead, if_neg atHead]

/-- What lies behind an excluded name cannot be reached any more, and all else can. -/
theorem at?_without (exclude location : List String) : ∀ entry : Entry,
    (entry.without exclude).at? location =
      if ∃ name ∈ location, name ∈ exclude then none
      else (entry.at? location).map (without exclude) := by
  induction location with
  | nil => intro entry; simp [at?]
  | cons name rest inductionHypothesis =>
    intro entry
    cases entry with
    | file contents => simp [without, at?]
    | link target => simp [without, at?]
    | directory entries =>
      rw [without, at?, at?, get?_withoutBelow]
      by_cases isExcluded : name ∈ exclude
      · simp [isExcluded]
      · cases known : Fields.get? name entries with
        | none => simp
        | some child => simp [isExcluded, inductionHypothesis child]

theorem legal_without (legal : entry.Legal) : (entry.without exclude).Legal := by
  induction legal with
  | file contents => exact .file contents
  | link target => exact .link target
  | directory once usable _ inductionHypothesis =>
    rename_i entries _
    have names : Fields.names (withoutBelow exclude entries) =
        (Fields.names entries).filter (· ∉ exclude) := by
      rw [withoutBelow_eq, Fields.names, Fields.names, List.map_map, List.filter_map]
      rfl
    rw [without]
    refine .directory (names ▸ once.filter _) (fun name member => ?_) fun item member => ?_
    · exact usable name (List.mem_filter.mp (names ▸ member)).1
    · rw [withoutBelow_eq] at member
      obtain ⟨original, isKept, rfl⟩ := List.mem_map.mp member
      exact inductionHypothesis original (List.mem_filter.mp isKept).1

/-- Trees that hold the same hold the same without excluded names. -/
theorem HoldsSame.without {other : Entry} (same : entry.HoldsSame other) (exclude : List String) :
    (entry.without exclude).HoldsSame (other.without exclude) := by
  have faces : ∀ some : Entry, (some.without exclude).face = some.face.without exclude := by
    rintro (_ | _ | _) <;> rfl
  intro location
  rw [at?_without, at?_without]
  by_cases isExcluded : ∃ name ∈ location, name ∈ exclude
  · rw [if_pos isExcluded, if_pos isExcluded]
  · have atLocation := congrArg (Option.map (Entry.without exclude)) (same location)
    rw [Option.map_map, Option.map_map] at atLocation
    rw [if_neg isExcluded, if_neg isExcluded, Option.map_map, Option.map_map]
    simpa only [Function.comp_def, faces] using atLocation

mutual

/-- The records of what is not excluded are all records of what is left. -/
theorem records_without (exclude : List String) (path : String) : ∀ entry : Entry,
    records [] path (entry.without exclude) = records exclude path entry
  | .file _ => rfl
  | .link _ => rfl
  | .directory entries => by
    rw [without, records, records, recordsBelow_without exclude (path ++ "/") entries]
    rfl

theorem recordsBelow_without (exclude : List String) (start : String) :
    ∀ entries : List (String × Entry),
      recordsBelow [] start (withoutBelow exclude entries) = recordsBelow exclude start entries
  | [] => rfl
  | (name, entry) :: rest => by
    rw [withoutBelow, recordsBelow]
    by_cases isExcluded : exclude.contains name = true
    · rw [if_pos isExcluded, if_pos isExcluded, recordsBelow_without exclude start rest]
    · rw [if_neg isExcluded, if_neg isExcluded, recordsBelow, if_neg (by simp),
        records_without exclude (start ++ name) entry, recordsBelow_without exclude start rest]

end

theorem digest_without (exclude : List String) (entry : Entry) :
    (entry.without exclude).digest [] = entry.digest exclude := by
  cases entry with
  | directory entries => rw [without, digest, digest, recordsBelow_without]
  | _ => rfl

end Entry

namespace FileSystem

open Entry

variable {system : FileSystem} {path : String} {exclude : List String}
  {entries : List (String × Entry)} {entry : Entry}

/-! ### The path of a directory -/

/-- Where following links leads to an entry, not following the last one leads there or to a link. -/
theorem walk_unfollowed {top : Entry} {links : Nat} {here : List String} {pieces : List String}
    {location : List String}
    (reached : walk top true links here pieces = .ok (.entry location entry)) :
    ∃ place other, walk top false links here pieces = .ok (.entry place other) ∧
      (other = entry ∨ ∃ target, other = .link target) := by
  -- the two walks take the same steps, and part only at a link that the last piece names
  fun_induction walk top true links here pieces with
  | case1 links _ _ found =>
    cases reached
    exact ⟨location, entry, by rw [walk, found], .inl rfl⟩
  | case4 links here name rest entries found stays inductionHypothesis =>
    rw [walk, found]
    simpa only [stays, if_true] using inductionHypothesis reached
  | case5 links here rest entries found moves inductionHypothesis =>
    rw [walk, found]
    simpa using inductionHypothesis reached
  | case10 here name rest entries found moves down target isLink _ links start
      inductionHypothesis =>
    rw [walk, found]
    simp only [moves, down, isLink, if_false]
    cases rest with
    | nil => exact ⟨here ++ [name], .link target, rfl, .inr ⟨target, rfl⟩⟩
    | cons next further => exact inductionHypothesis reached
  | case11 links here name rest entries found moves down child isNoLink known inductionHypothesis =>
    rw [walk, found]
    cases child with
    | link target => exact (isNoLink target rfl).elim
    | file contents | directory below =>
      simp only [moves, down, known, if_false]
      exact inductionHypothesis reached
  | case8 links here name rest entries found moves down target isLink last =>
    rw [Bool.not_true, Bool.and_false] at last
    cases last
  | case2 | case3 | case6 | case7 | case9 | case12 => cases reached

/-- Following links leads to what stands at a path, or a link stands there. -/
theorem find_unfollowed (found : system.find true path = .ok entry) :
    ∃ other, system.find false path = .ok other ∧
      (other = entry ∨ ∃ target, other = .link target) := by
  rw [find] at found
  obtain ⟨_ | _, reached, isEntry⟩ := bind_eq_ok.mp found
  · cases isEntry
    rw [locate] at reached
    split at reached
    · cases reached
    · rename_i isPath
      obtain ⟨place, other, ends, shape⟩ := walk_unfollowed reached
      exact ⟨other, by rw [find, locate, if_neg isPath, ends]; rfl, shape⟩
  · cases isEntry

/-- A directory is left out as a whole: it stands itself at a path that ends in an excluded
name. -/
def LeavesOut (system : FileSystem) (path : String) (exclude : List String) : Prop :=
  (∃ entries, system.find false path = .ok (.directory entries)) ∧
    (Path.fileName? path).getD path ∈ exclude

/-- A path leads to a directory that holds what a tree holds. -/
def Holds (system : FileSystem) (path : String) (tree : Entry) : Prop :=
  ∃ entries, system.find true path = .ok (.directory entries) ∧
    (Entry.directory entries).Legal ∧ (Entry.directory entries).HoldsSame tree

/-- A directory that is left out has the digest of nothing. -/
theorem directoryHash_of_leavesOut (found : system.find true path = .ok (.directory entries))
    (leavesOut : system.LeavesOut path exclude) :
    system.directoryHash path exclude = .ok (textHash "") := by
  obtain ⟨⟨shown, atPath⟩, isExcluded⟩ := leavesOut
  refine bind_eq_ok.mpr ⟨.directory shown, mapError_eq_ok.mpr atPath,
    bind_eq_ok.mpr ⟨.directory entries, mapError_eq_ok.mpr found, ?_⟩⟩
  rw [if_pos (by simp [Entry.isDirectory, isExcluded])]
  simp [digestRecords, sortRecords, pure, Except.pure]

theorem directoryHash_of_not_leavesOut (found : system.find true path = .ok (.directory entries))
    (kept : ¬system.LeavesOut path exclude) :
    system.directoryHash path exclude = .ok ((Entry.directory entries).digest exclude) := by
  obtain ⟨root, atPath, shape⟩ := find_unfollowed found
  refine bind_eq_ok.mpr ⟨root, mapError_eq_ok.mpr atPath,
    bind_eq_ok.mpr ⟨.directory entries, mapError_eq_ok.mpr found, if_neg fun both => ?_⟩⟩
  rw [Bool.and_eq_true, List.contains_iff_mem] at both
  rcases shape with rfl | ⟨target, rfl⟩
  · exact kept ⟨⟨entries, atPath⟩, both.2⟩
  · cases both.1

/-! ### Deleting instead of excluding -/

/-- The text of records is empty only if there are none. -/
theorem recordText_eq_empty_iff {records : List (String × String)} :
    recordText records = "" ↔ records = [] := by
  have sameSize : (sortRecords records).length = records.length := List.length_mergeSort _
  rw [recordText, ← List.length_eq_zero_iff, ← sameSize, List.length_eq_zero_iff]
  cases sortRecords records with
  | nil => simp
  | cons first rest => simp [String.join_cons]

/-- A directory has no records only if all its names are excluded. -/
theorem recordsBelow_eq_nil_iff {start : String} :
    recordsBelow exclude start entries = [] ↔ ∀ item ∈ entries, item.1 ∈ exclude := by
  induction entries with
  | nil => simp [recordsBelow]
  | cons item rest inductionHypothesis =>
    obtain ⟨name, entry⟩ := item
    have isRecorded : records exclude (start ++ name) entry ≠ [] := by
      cases entry <;> simp [records]
    rw [recordsBelow]
    by_cases isExcluded : name ∈ exclude
    · simp [isExcluded, inductionHypothesis]
    · simp [isExcluded, isRecorded]

/-- What is excluded from the digest of a directory is as good as deleted: there is one digest for
all places of the directory, with the exclusions, and for all places of what is left, without any.
Only where the path leaves the directory out as a whole is the digest that of nothing, and without
collisions the two are the same only if nothing is left. -/
theorem exclusion_is_deletion {held : List (String × Entry)} (legal : (Entry.directory held).Legal)
    (exclude : List String) : ∃ hash,
      (∀ (system : FileSystem) (path : String), system.Holds path (.directory held) →
        (¬system.LeavesOut path exclude → system.directoryHash path exclude = .ok hash) ∧
        (system.LeavesOut path exclude → system.directoryHash path exclude = .ok (textHash ""))) ∧
      (∀ (system : FileSystem) (path : String),
        system.Holds path ((Entry.directory held).without exclude) →
          system.directoryHash path [] = .ok hash) ∧
      (NoCollision [(recordText (recordsBelow exclude "" held)).toUTF8, "".toUTF8] →
        (hash = textHash "" ↔ ∀ item ∈ held, item.1 ∈ exclude)) := by
  have legalLeft : ((Entry.directory held).without exclude).Legal := legal_without legal
  refine ⟨((Entry.directory held).without exclude).digest [], fun system path holds => ?_,
    fun system path holds => ?_, fun apart => ?_⟩
  · obtain ⟨entries, found, legalToo, same⟩ := holds
    refine ⟨fun kept => ?_, directoryHash_of_leavesOut found⟩
    rw [directoryHash_of_not_leavesOut found kept, ← digest_without]
    exact congrArg Except.ok
      ((same.without exclude).digest_eq (legal_without legalToo) legalLeft)
  · obtain ⟨entries, found, legalToo, same⟩ := holds
    rw [directoryHash_of_not_leavesOut found fun leavesOut => List.not_mem_nil leavesOut.2]
    exact congrArg Except.ok (same.digest_eq legalToo legalLeft)
  · have isText : ((Entry.directory held).without exclude).digest [] =
        textHash (recordText (recordsBelow exclude "" held)) := digest_without exclude _
    rw [isText, ← recordsBelow_eq_nil_iff, ← recordText_eq_empty_iff]
    refine ⟨fun same => ?_, congrArg textHash⟩
    exact String.toByteArray_inj.mp (apart _ (by simp) _ (by simp) same)

/-- A directory with entries to leave out, at its top and below. -/
def cluttered : List (String × Entry) :=
  [("x", .file "".toUTF8), ("s", .directory [("x", .directory []), ("y", .link "x")]),
    ("y", .file "1".toUTF8)]

/-- The directory, the same with its entries in another order and with fewer entries, and again under
a name that it leaves out. -/
def shelf : FileSystem :=
  ⟨.directory [("d", .directory cluttered), ("e", .directory cluttered.reverse),
    ("f", (Entry.directory cluttered).without ["x"]), ("x", .directory cluttered)]⟩

/-- A letter without a slash is its only piece, and its own name. -/
theorem pieces_letter : ∀ letter ∈ ["d", "e", "f", "x"],
    Path.pieces letter = [letter] ∧ (Path.fileName? letter).getD letter = letter := by
  have onePiece : ∀ letter ∈ ["d", "e", "f", "x"], Path.pieces letter = [letter] := by
    simp only [List.forall_mem_cons, Path.pieces, String.splitOn]
    refine ⟨?_, ?_, ?_, ?_, fun _ never => nomatch never⟩
    all_goals
      rw [if_neg (by decide), String.splitOnAux, if_neg (by decide), if_neg (by decide),
        String.splitOnAux, if_pos (by decide)]
      decide
  intro letter member
  refine ⟨onePiece letter member, ?_⟩
  rw [Path.fileName?, Path.marked, onePiece letter member]
  simp only [List.mem_cons, List.not_mem_nil, or_false] at member
  rcases member with rfl | rfl | rfl | rfl <;> decide

/-- What stands at the top under such a letter is found by it. -/
theorem find_letter {letter : String} (isLetter : letter ∈ ["d", "e", "f", "x"])
    {top : List (String × Entry)} (found : Fields.get? letter top = some (.directory entries))
    (follow : Bool) :
    (FileSystem.mk (.directory top)).find follow letter = .ok (.directory entries) := by
  have plain : letter ≠ "" ∧ letter ≠ "." ∧ letter ≠ ".." := by
    simp only [List.mem_cons, List.not_mem_nil, or_false] at isLetter
    rcases isLetter with rfl | rfl | rfl | rfl <;> decide
  simp [find, locate, (pieces_letter letter isLetter).1, walk, at?, found, plain, pure, Except.pure,
    bind, Except.bind]

theorem legal_cluttered : (Entry.directory cluttered).Legal ∧
    (Entry.directory cluttered.reverse).Legal := by
  have legalBelow : (Entry.directory [("x", .directory []), ("y", .link "x")]).Legal := by
    refine .directory (by decide) (by decide) fun item member => ?_
    simp only [List.mem_cons, List.not_mem_nil, or_false] at member
    rcases member with rfl | rfl
    · exact .directory .nil (fun _ never => nomatch never) (fun _ never => nomatch never)
    · exact .link "x"
  have each : ∀ item ∈ cluttered, item.2.Legal := by
    intro item member
    simp only [cluttered, List.mem_cons, List.not_mem_nil, or_false] at member
    rcases member with rfl | rfl | rfl
    · exact .file _
    · exact legalBelow
    · exact .file _
  exact ⟨.directory (by decide) (by decide) each,
    .directory (by decide) (by decide) fun item member => each item (List.mem_reverse.mp member)⟩

theorem shelved_alike : (Entry.directory cluttered).Legal ∧ ∃ hash,
    shelf.directoryHash "d" ["x"] = .ok hash ∧ shelf.directoryHash "e" ["x"] = .ok hash ∧
      shelf.directoryHash "f" [] = .ok hash ∧
      shelf.directoryHash "x" ["x"] = .ok (textHash "") := by
  obtain ⟨hash, placed, left, _⟩ := exclusion_is_deletion legal_cluttered.1 ["x"]
  have same : (Entry.directory cluttered.reverse).HoldsSame (.directory cluttered) :=
    holdsSame_of_perm (List.reverse_perm _) (by decide)
  have named := fun letter isLetter => (pieces_letter letter isLetter).2
  refine ⟨legal_cluttered.1, hash, (placed shelf "d" ?_).1 ?_, (placed shelf "e" ?_).1 ?_,
    left shelf "f" ?_, (placed shelf "x" ?_).2 ?_⟩
  · exact ⟨_, find_letter (by decide) rfl true, legal_cluttered.1, fun _ => rfl⟩
  · exact fun leavesOut => absurd leavesOut.2 (by rw [named "d" (by decide)]; decide)
  · exact ⟨_, find_letter (by decide) rfl true, legal_cluttered.2, same⟩
  · exact fun leavesOut => absurd leavesOut.2 (by rw [named "e" (by decide)]; decide)
  · exact ⟨_, find_letter (by decide) rfl true, legal_without legal_cluttered.1, fun _ => rfl⟩
  · exact ⟨_, find_letter (by decide) rfl true, legal_cluttered.1, fun _ => rfl⟩
  · exact ⟨⟨_, find_letter (by decide) rfl false⟩, by rw [named "x" (by decide)]; decide⟩

/-- A file in a directory, at two places. -/
def drawer : FileSystem :=
  ⟨.directory [("d", .directory [("x", .file "".toUTF8)]),
    ("e", .directory [("x", .file "".toUTF8)])]⟩

/-- Nothing in the directory has an excluded name, but the directory itself has it and shows
nothing. -/
theorem excluded_place_hides_all :
    drawer.Holds "d" (.directory [("x", .file "".toUTF8)]) ∧
      drawer.Holds "e" ((Entry.directory [("x", .file "".toUTF8)]).without ["d"]) ∧
      drawer.directoryHash "d" ["d"] ≠ drawer.directoryHash "e" [] := by
  have legal : (Entry.directory [("x", .file "".toUTF8)]).Legal := by
    refine .directory (by decide) (by decide) fun item member => ?_
    rw [List.mem_singleton] at member
    exact member ▸ .file _
  have atFirst : ∀ follow, drawer.find follow "d" = .ok (.directory [("x", .file "".toUTF8)]) :=
    find_letter (by decide) rfl
  have atSecond : drawer.find true "e" = .ok (.directory [("x", .file "".toUTF8)]) :=
    find_letter (by decide) rfl true
  have named := (pieces_letter "d" (by decide)).2
  have differ : textHash "" ≠ (Entry.directory [("x", .file "".toUTF8)]).digest [] := by
    decide +kernel
  refine ⟨⟨_, atFirst true, legal, fun _ => rfl⟩, ⟨_, atSecond, legal, fun _ => rfl⟩, ?_⟩
  rw [directoryHash_of_leavesOut (atFirst true) ⟨⟨_, atFirst false⟩, by rw [named]; decide⟩,
    directoryHash_of_not_leavesOut atSecond fun leavesOut => List.not_mem_nil leavesOut.2]
  exact fun same => differ (Except.ok.inj same)

end FileSystem

end StackSynth
