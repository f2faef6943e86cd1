/-
This file proves what the digest of a directory tells about its contents. The digest is that of the
records, one behind the other, and a record begins with the kind of its entry. Names may have line
breaks in them, so a record may have a line that begins like another one; two directories of which
one has such a record may well have the same text. Where no record has such a line, the text can be
cut into records in one way, and each record tells the path of an entry, its kind and the digest of
what it holds, so different contents have different digests.
-/

import StackSynth.Proofs.FileSystem.Exclusion
import StackSynth.Proofs.Naming.Spelling

namespace StackSynth

open Outcome

namespace Entry

/-! ### Cutting a text into records -/

/-- The letters that say of what kind the entry of a record is. -/
def kindLetters : List Char := ['F', 'D', 'L']

/-- A text has a line, not its first one, that begins like a record. -/
def Restarts (text : List Char) : Prop :=
  ∃ before, ∃ kind ∈ kindLetters, ∃ after, text = before ++ '\n' :: kind :: ':' :: after

/-- A text that begins like a record, and of which no other line does. -/
def IsClear (text : List Char) : Prop :=
  (∃ kind ∈ kindLetters, ∃ rest, text = kind :: ':' :: rest) ∧ ¬Restarts text

/-- Lines, each with a line break behind it. -/
def lines (texts : List (List Char)) : List Char := texts.flatMap (· ++ ['\n'])

theorem lines_cons (text : List Char) (texts : List (List Char)) :
    lines (text :: texts) = text ++ '\n' :: lines texts := by
  rw [lines, lines, List.flatMap_cons, List.append_assoc, List.singleton_append]

/-- Where a first text goes on behind the end of the other one, it goes on like a record. -/
theorem restarts_of_split {between rest : List Char} {text : List Char} {texts : List (List Char)}
    (clear : ∀ other ∈ texts, IsClear other)
    (same : lines texts = between ++ '\n' :: rest) : Restarts (text ++ '\n' :: between) := by
  cases texts with
  | nil => exact absurd same (by simp [lines])
  | cons first others =>
    obtain ⟨⟨kind, isKind, behind, begins⟩, _⟩ := clear first List.mem_cons_self
    rw [lines_cons, begins] at same
    cases between with
    | nil =>
      simp only [List.cons_append, List.nil_append, List.cons.injEq] at same
      exact absurd isKind (by rw [same.1]; decide)
    | cons letter between =>
      simp only [List.cons_append, List.cons.injEq] at same
      obtain ⟨rfl, same⟩ := same
      cases between with
      | nil => exact absurd (List.cons.inj same).1 (by decide)
      | cons colon between =>
        simp only [List.cons_append, List.cons.injEq] at same
        obtain ⟨rfl, _⟩ := same
        exact ⟨text, kind, isKind, between, rfl⟩

/-- Clear texts can be told apart in what they are written to. -/
theorem lines_injective {texts others : List (List Char)} (clear : ∀ text ∈ texts, IsClear text)
    (clearToo : ∀ text ∈ others, IsClear text) (same : lines texts = lines others) :
    texts = others := by
  induction texts generalizing others with
  | nil =>
    cases others with
    | nil => rfl
    | cons text rest => exact absurd same (by simp [lines])
  | cons text rest inductionHypothesis =>
    cases others with
    | nil => exact absurd same (by simp [lines])
    | cons other restToo =>
      obtain ⟨clearText, clearRest⟩ := List.forall_mem_cons.mp clear
      obtain ⟨clearOther, clearRestToo⟩ := List.forall_mem_cons.mp clearToo
      rw [lines_cons, lines_cons] at same
      -- one of the texts may be the beginning of the other one, but then the other one restarts
      rcases List.append_eq_append_iff.mp same with ⟨between, longer, split⟩ |
        ⟨between, longer, split⟩
      · cases between with
        | nil =>
          rw [List.append_nil] at longer
          rw [longer, inductionHypothesis clearRest clearRestToo (List.cons.inj split).2]
        | cons letter between =>
          simp only [List.cons_append, List.cons.injEq] at split
          obtain ⟨rfl, split⟩ := split
          exact absurd (longer ▸ restarts_of_split clearRest split) clearOther.2
      · cases between with
        | nil =>
          rw [List.append_nil] at longer
          rw [longer, inductionHypothesis clearRest clearRestToo (List.cons.inj split).2.symm]
        | cons letter between =>
          simp only [List.cons_append, List.cons.injEq] at split
          obtain ⟨rfl, split⟩ := split
          exact absurd (longer ▸ restarts_of_split clearRestToo split) clearText.2

/-! ### What a record tells -/

variable {held heldToo : List (String × Entry)} {entry other : Entry} {path second : String}

/-- The bytes of an entry that are hashed for its record. -/
def hashedBytes : Entry → List ByteArray
  | .file contents => [contents]
  | .link target => [target.toUTF8]
  | .directory _ => []

theorem colon_notMem_contentHash (bytes : ByteArray) : ':' ∉ (contentHash bytes).toList := by
  intro member
  rw [contentHash, String.toList_ofList] at member
  exact absurd (Sha256.not_isUpper_of_mem member).1 (by decide)

theorem break_notMem_contentHash (bytes : ByteArray) : '\n' ∉ (contentHash bytes).toList := by
  intro member
  rw [contentHash, String.toList_ofList] at member
  exact absurd (Sha256.not_isUpper_of_mem member).1 (by decide)

/-- Without collisions a record tells the path and what is seen of the entry. -/
theorem record_injective (apart : NoCollision (entry.hashedBytes ++ other.hashedBytes))
    (same : record path entry = record second other) : path = second ∧ entry.face = other.face := by
  have letters := congrArg String.toList same
  have hashed : ∀ {bytes bytesToo : ByteArray},
      path.toList ++ ':' :: (contentHash bytes).toList =
        second.toList ++ ':' :: (contentHash bytesToo).toList →
      path = second ∧ contentHash bytes = contentHash bytesToo := by
    intro bytes bytesToo sameLetters
    obtain ⟨samePath, sameHash⟩ := Naming.append_separator_injective
      (colon_notMem_contentHash bytes) (colon_notMem_contentHash bytesToo) sameLetters
    exact ⟨String.ext_iff.mpr samePath, String.ext_iff.mpr sameHash⟩
  cases entry with
  | file contents =>
    cases other with
    | file contentsToo =>
      obtain ⟨samePath, sameHash⟩ := hashed (by simpa [record] using letters)
      have sameContents := apart contents (by simp [hashedBytes]) contentsToo
        (by simp [hashedBytes]) sameHash
      exact ⟨samePath, by rw [sameContents]⟩
    | directory _ | link _ => simp [record] at letters
  | link target =>
    cases other with
    | link targetToo =>
      obtain ⟨samePath, sameHash⟩ := hashed (by simpa [record, textHash] using letters)
      have sameTarget := apart target.toUTF8 (by simp [hashedBytes]) targetToo.toUTF8
        (by simp [hashedBytes]) sameHash
      exact ⟨samePath, by rw [String.toByteArray_inj.mp sameTarget]⟩
    | directory _ | file _ => simp [record] at letters
  | directory entries =>
    cases other with
    | directory entriesToo => exact ⟨by simpa [record] using same, rfl⟩
    | file _ | link _ => simp [record] at letters

/-! ### What the records of a directory tell -/

/-- No record of a directory has a line that begins like another one. -/
def Unbroken (entries : List (String × Entry)) : Prop :=
  ∀ item ∈ recordsBelow [] "" entries, ¬Restarts item.2.toList

/-- The bytes that are hashed for a directory: of all records, and of every file and link. -/
def hashedBelow (entries : List (String × Entry)) : List ByteArray :=
  (recordText (recordsBelow [] "" entries)).toUTF8 ::
    (listingBelow entries).flatMap (fun item => item.2.hashedBytes)

/-- A record begins with the letter of a kind and a colon. -/
theorem record_split (path : String) (entry : Entry) :
    ∃ kind ∈ kindLetters, ∃ rest, (record path entry).toList = kind :: ':' :: rest := by
  cases entry with
  | file contents =>
    exact ⟨'F', by decide, (path ++ ":" ++ contentHash contents).toList, by simp [record]⟩
  | directory entries => exact ⟨'D', by decide, path.toList, by simp [record]⟩
  | link target =>
    exact ⟨'L', by decide, (path ++ ":" ++ textHash target).toList, by simp [record]⟩

theorem isClear_of_unbroken (unbroken : Unbroken held) :
    ∀ item ∈ recordsBelow [] "" held, IsClear item.2.toList := by
  intro item member
  obtain ⟨path, entry, isRecord⟩ := areRecords_recordsBelow [] "" held item member
  refine ⟨?_, unbroken item member⟩
  rw [isRecord]
  exact record_split path entry

theorem sortRecords_perm (records : List (String × String)) :
    (sortRecords records).Perm records := List.mergeSort_perm records _

/-- Records in the order of their paths are written as they come. -/
theorem recordText_of_sorted {records : List (String × String)}
    (sorted : records.Pairwise (fun first second => (compare first.1 second.1).isLE = true)) :
    recordText records = String.join (records.map (·.2 ++ "\n")) := by
  rw [recordText, sortRecords, List.mergeSort_of_pairwise sorted]

theorem toList_recordText (records : List (String × String)) :
    (recordText records).toList =
      lines ((sortRecords records).map (fun item => item.2.toList)) := by
  rw [recordText, lines, String.toList_join, List.flatMap_map, List.flatMap_map]
  refine List.flatMap_congr fun item _ => ?_
  rw [String.toList_append]
  rfl

/-- The text of unbroken records tells which records there are. -/
theorem perm_of_sameText (unbroken : Unbroken held) (unbrokenToo : Unbroken heldToo)
    (same : recordText (recordsBelow [] "" held) = recordText (recordsBelow [] "" heldToo)) :
    ((recordsBelow [] "" held).map Prod.snd).Perm ((recordsBelow [] "" heldToo).map Prod.snd) := by
  have clear : ∀ {held : List (String × Entry)}, Unbroken held →
      ∀ text ∈ (sortRecords (recordsBelow [] "" held)).map (fun item => item.2.toList),
        IsClear text := by
    intro held unbroken text member
    obtain ⟨item, isItem, rfl⟩ := List.mem_map.mp member
    exact isClear_of_unbroken unbroken item ((sortRecords_perm _).mem_iff.mp isItem)
  have sameLetters := lines_injective (clear unbroken) (clear unbrokenToo)
    (by rw [← toList_recordText, ← toList_recordText, same])
  have sameTexts : (sortRecords (recordsBelow [] "" held)).map Prod.snd =
      (sortRecords (recordsBelow [] "" heldToo)).map Prod.snd := by
    refine List.map_injective_iff.mpr (fun _ _ equal => String.ext_iff.mpr equal) ?_
    rw [List.map_map, List.map_map]
    exact sameLetters
  have sorted := fun records => (sortRecords_perm records).map Prod.snd
  exact (sorted _).symm.trans ((List.Perm.of_eq sameTexts).trans (sorted _))

/-- What stands in a directory is seen as it is. -/
theorem face_of_listed (legal : (Entry.directory held).Legal) {location : List String}
    (listed : (location, entry) ∈ listingBelow held) :
    entry.face = entry ∧ Naming.Usable location := by
  have reached := (mem_listing location entry _ legal).mp (List.mem_cons_of_mem _ listed)
  obtain ⟨whole, found, rfl⟩ := Option.map_eq_some_iff.mp reached
  exact ⟨by cases whole <;> rfl, usable_of_at? legal found⟩

/-- A directory has what another one has if it has its records. -/
theorem listed_of_records (legal : (Entry.directory held).Legal)
    (legalToo : (Entry.directory heldToo).Legal)
    (apart : NoCollision (hashedBelow held ++ hashedBelow heldToo))
    (within : ∀ text ∈ (recordsBelow [] "" held).map Prod.snd,
      text ∈ (recordsBelow [] "" heldToo).map Prod.snd) {location : List String}
    (listed : (location, entry) ∈ listingBelow held) :
    (location, entry) ∈ listingBelow heldToo := by
  rw [recordsBelow_eq, recordsBelow_eq, List.map_map, List.map_map] at within
  obtain ⟨⟨place, other⟩, listedToo, same⟩ :=
    List.mem_map.mp (within _ (List.mem_map.mpr ⟨_, listed, rfl⟩))
  have hashed : ∀ {held : List (String × Entry)} {item : List String × Entry},
      item ∈ listingBelow held → ∀ bytes ∈ item.2.hashedBytes, bytes ∈ hashedBelow held :=
    fun isListed bytes isHashed =>
      List.mem_cons_of_mem _ (List.mem_flatMap.mpr ⟨_, isListed, isHashed⟩)
  have amongAll : ∀ bytes ∈ other.hashedBytes ++ entry.hashedBytes,
      bytes ∈ hashedBelow held ++ hashedBelow heldToo := by
    intro bytes member
    rcases List.mem_append.mp member with isThere | isHere
    · exact List.mem_append_right _ (hashed listedToo bytes isThere)
    · exact List.mem_append_left _ (hashed listed bytes isHere)
  have apartThere : NoCollision (other.hashedBytes ++ entry.hashedBytes) :=
    fun first isFirst second isSecond =>
      apart first (amongAll first isFirst) second (amongAll second isSecond)
  obtain ⟨samePath, sameFace⟩ := record_injective apartThere same
  rw [String.empty_append, String.empty_append] at samePath
  obtain ⟨isFace, usable⟩ := face_of_listed legal listed
  obtain ⟨isFaceToo, usableToo⟩ := face_of_listed legalToo listedToo
  rw [← Naming.intercalate_injective usableToo usable samePath, ← isFace, ← sameFace, isFaceToo]
  exact listedToo

/-- Directories with the same text of unbroken records hold the same. -/
theorem holdsSame_of_sameText (legal : (Entry.directory held).Legal)
    (legalToo : (Entry.directory heldToo).Legal) (unbroken : Unbroken held)
    (unbrokenToo : Unbroken heldToo)
    (apart : NoCollision (hashedBelow held ++ hashedBelow heldToo))
    (same : recordText (recordsBelow [] "" held) = recordText (recordsBelow [] "" heldToo)) :
    (Entry.directory held).HoldsSame (.directory heldToo) := by
  have perm := perm_of_sameText unbroken unbrokenToo same
  have apartToo : NoCollision (hashedBelow heldToo ++ hashedBelow held) :=
    fun first isFirst second isSecond => apart first (List.mem_append.mpr
      (List.mem_append.mp isFirst).symm) second (List.mem_append.mpr
      (List.mem_append.mp isSecond).symm)
  intro location
  refine Option.ext fun shape => ?_
  rw [← mem_listing location shape _ legal, ← mem_listing location shape _ legalToo, listing,
    listing, List.mem_cons, List.mem_cons]
  exact or_congr_right ⟨listed_of_records legal legalToo apart fun _ => perm.mem_iff.mp,
    listed_of_records legalToo legal apartToo fun _ => perm.mem_iff.mpr⟩

/-! ### Names without line breaks -/

theorem mem_of_mem_intercalate {letter : Char} {location : List String} (notSlash : letter ≠ '/')
    (member : letter ∈ ("/".intercalate location).toList) :
    ∃ name ∈ location, letter ∈ name.toList := by
  induction location with
  | nil => cases member
  | cons name rest inductionHypothesis =>
    cases rest with
    | nil =>
      rw [String.intercalate_singleton] at member
      exact ⟨name, List.mem_cons_self, member⟩
    | cons next further =>
      rw [String.intercalate_cons_cons, String.toList_append, String.toList_append,
        List.mem_append, List.mem_append] at member
      rcases member with (inName | isSlash) | inRest
      · exact ⟨name, List.mem_cons_self, inName⟩
      · exact absurd (List.mem_singleton.mp isSlash) notSlash
      · obtain ⟨other, isName, inOther⟩ := inductionHypothesis inRest
        exact ⟨other, List.mem_cons_of_mem _ isName, inOther⟩

/-- Where no name has a line break no record has one. -/
theorem unbroken_of_names
    (plain : ∀ item ∈ listingBelow held, ∀ name ∈ item.1, '\n' ∉ name.toList) :
    Unbroken held := by
  rintro item isRecord ⟨before, kind, _, after, split⟩
  have hasBreak : '\n' ∈ item.2.toList := by
    rw [split]
    exact List.mem_append_right _ List.mem_cons_self
  rw [recordsBelow_eq] at isRecord
  obtain ⟨⟨location, entry⟩, listed, rfl⟩ := List.mem_map.mp isRecord
  have inPath : '\n' ∈ ("/".intercalate location).toList := by
    rw [recordAt, String.empty_append] at hasBreak
    cases entry with
    | file contents => simpa [record, break_notMem_contentHash] using hasBreak
    | directory entries => simpa [record] using hasBreak
    | link target => simpa [record, textHash, break_notMem_contentHash] using hasBreak
  obtain ⟨name, isName, inName⟩ := mem_of_mem_intercalate (by decide) inPath
  exact plain _ listed name isName inName

end Entry

namespace FileSystem

open Entry

variable {held heldToo : List (String × Entry)}

/-- Without collisions, the digest of a directory tells the text of its records, and so it tells
what the directory holds, wherever the directory is, if no record has a line that begins like
another one. -/
theorem digests_tell_contents (legal : (Entry.directory held).Legal)
    (legalToo : (Entry.directory heldToo).Legal)
    (apart : NoCollision (hashedBelow held ++ hashedBelow heldToo)) : ∃ hash hashToo,
      (∀ (system : FileSystem) (path : String), system.Holds path (.directory held) →
        system.directoryHash path [] = .ok hash) ∧
      (∀ (system : FileSystem) (path : String), system.Holds path (.directory heldToo) →
        system.directoryHash path [] = .ok hashToo) ∧
      (hash = hashToo ↔
        recordText (recordsBelow [] "" held) = recordText (recordsBelow [] "" heldToo)) ∧
      (Unbroken held → Unbroken heldToo →
        (hash = hashToo ↔ (Entry.directory held).HoldsSame (.directory heldToo))) := by
  have hashOf : ∀ {held : List (String × Entry)}, (Entry.directory held).Legal →
      ∀ (system : FileSystem) (path : String), system.Holds path (.directory held) →
        system.directoryHash path [] = .ok ((Entry.directory held).digest []) := by
    rintro held legal system path ⟨entries, found, legalThere, same⟩
    rw [directoryHash_of_not_leavesOut found fun leavesOut => List.not_mem_nil leavesOut.2]
    exact congrArg Except.ok (same.digest_eq legalThere legal)
  have sameText : (Entry.directory held).digest [] = (Entry.directory heldToo).digest [] ↔
      recordText (recordsBelow [] "" held) = recordText (recordsBelow [] "" heldToo) := by
    refine ⟨fun same => ?_, congrArg textHash⟩
    exact String.toByteArray_inj.mp (apart _ (List.mem_append_left _ List.mem_cons_self) _
      (List.mem_append_right _ List.mem_cons_self) same)
  refine ⟨_, _, hashOf legal, hashOf legalToo, sameText, fun unbroken unbrokenToo => ?_⟩
  refine ⟨fun same => ?_, fun same => same.digest_eq legal legalToo⟩
  exact holdsSame_of_sameText legal legalToo unbroken unbrokenToo apart (sameText.mp same)

/-- A file, and the same file in a directory of its own. -/
def outside : List (String × Entry) := [("x", .file "1".toUTF8)]

def inside : List (String × Entry) := [("s", .directory outside)]

def chest : FileSystem := ⟨.directory [("d", .directory outside), ("e", .directory inside)]⟩

theorem legal_outside : (Entry.directory outside).Legal := by
  refine .directory (by decide) (by decide) fun item member => ?_
  rw [List.mem_singleton.mp member]
  exact .file _

theorem legal_inside : (Entry.directory inside).Legal := by
  refine .directory (by decide) (by decide) fun item member => ?_
  rw [List.mem_singleton.mp member]
  exact legal_outside

theorem place_of_file_shows : NoCollision (hashedBelow outside ++ hashedBelow inside) ∧
    chest.directoryHash "d" [] ≠ chest.directoryHash "e" [] := by
  have apart : NoCollision (hashedBelow outside ++ hashedBelow inside) := by
    rw [NoCollision, hashedBelow, hashedBelow, recordText_of_sorted (by decide +kernel),
      recordText_of_sorted (by decide +kernel)]
    decide +kernel
  have unbroken : Unbroken outside := unbroken_of_names (by decide)
  have unbrokenToo : Unbroken inside := unbroken_of_names (by decide)
  obtain ⟨hash, hashToo, hashOf, hashOfToo, _, tells⟩ :=
    digests_tell_contents legal_outside legal_inside apart
  refine ⟨apart, fun same => ?_⟩
  rw [hashOf chest "d" ⟨_, find_letter (by decide) rfl true, legal_outside, fun _ => rfl⟩,
    hashOfToo chest "e" ⟨_, find_letter (by decide) rfl true, legal_inside, fun _ => rfl⟩] at same
  have holdsSame := (tells unbroken unbrokenToo).mp (Except.ok.inj same)
  cases holdsSame ["x"]

/-- Empty directories of different names are legal. -/
theorem legal_of_names {names : List String} (once : names.Nodup) (usable : Naming.Usable names) :
    (Entry.directory (names.map (·, .directory []))).Legal := by
  have sameNames : Fields.names (names.map (·, Entry.directory [])) = names := by
    rw [Fields.names, List.map_map]
    exact List.map_id names
  refine .directory (by rwa [sameNames]) (by rwa [sameNames]) fun item member => ?_
  obtain ⟨name, _, rfl⟩ := List.mem_map.mp member
  exact .directory .nil (fun _ never => absurd never List.not_mem_nil)
    fun _ never => absurd never List.not_mem_nil

/-- Two empty directories, and one whose name has a line break in it. -/
def twoNames : List (String × Entry) := [("a", .directory []), ("b", .directory [])]

def oneName : List (String × Entry) := [("a\nD:b", .directory [])]

def pigeonhole : FileSystem := ⟨.directory [("d", .directory twoNames), ("e", .directory oneName)]⟩

/-- A name with a line that begins like a record reads like two names. -/
theorem line_break_hides_a_name :
    NoCollision (hashedBelow twoNames ++ hashedBelow oneName) ∧
      pigeonhole.Holds "d" (.directory twoNames) ∧ pigeonhole.Holds "e" (.directory oneName) ∧
      pigeonhole.directoryHash "d" [] = pigeonhole.directoryHash "e" [] ∧
      ¬(Entry.directory twoNames).HoldsSame (.directory oneName) := by
  have sameText : recordText (recordsBelow [] "" twoNames) =
      recordText (recordsBelow [] "" oneName) := by
    rw [recordText_of_sorted (by decide), recordText_of_sorted (by decide)]
    decide
  have atFirst : pigeonhole.find true "d" = .ok (.directory twoNames) :=
    find_letter (by decide) rfl true
  have atSecond : pigeonhole.find true "e" = .ok (.directory oneName) :=
    find_letter (by decide) rfl true
  have legalFirst : (Entry.directory twoNames).Legal :=
    legal_of_names (by decide : ["a", "b"].Nodup) (by decide)
  have legalSecond : (Entry.directory oneName).Legal :=
    legal_of_names (by decide : ["a\nD:b"].Nodup) (by decide)
  refine ⟨?_, ⟨_, atFirst, legalFirst, fun _ => rfl⟩, ⟨_, atSecond, legalSecond, fun _ => rfl⟩,
    ?_, ?_⟩
  · have only : ∀ bytes ∈ hashedBelow twoNames ++ hashedBelow oneName,
        bytes = (recordText (recordsBelow [] "" oneName)).toUTF8 := by
      intro bytes member
      rw [hashedBelow, hashedBelow, sameText] at member
      simpa [twoNames, oneName, listingBelow, listing, hashedBytes] using member
    exact fun first isFirst second isSecond _ =>
      (only first isFirst).trans (only second isSecond).symm
  · rw [directoryHash_of_not_leavesOut atFirst fun leavesOut => List.not_mem_nil leavesOut.2,
      directoryHash_of_not_leavesOut atSecond fun leavesOut => List.not_mem_nil leavesOut.2]
    exact congrArg (fun text => Except.ok (textHash text)) sameText
  · intro same
    cases same ["a"]

end FileSystem

end StackSynth
