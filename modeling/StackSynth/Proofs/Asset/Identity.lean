/-
This file says which bytes identify an asset on a file system. The hash of an asset is that of its
identity, so with no two of them sharing a hash, equal hashes mean equal bytes. What the bytes begin
with tells images from directories and from texts of JSON objects: a record of a directory begins
with a capital, a digest does not, and an object with a brace. The bytes of a file may be any.
-/

import StackSynth.Asset.Basic
import StackSynth.Proofs.Outcome

namespace StackSynth

open Outcome

/-- No two different byte strings among these share a hash. -/
def NoCollision (hashed : List ByteArray) : Prop :=
  ∀ first ∈ hashed, ∀ second ∈ hashed, contentHash first = contentHash second → first = second

theorem NoCollision.tail {bytes : ByteArray} {hashed : List ByteArray}
    (apart : NoCollision (bytes :: hashed)) : NoCollision hashed :=
  fun first isFirst second isSecond =>
    apart first (List.mem_cons_of_mem _ isFirst) second (List.mem_cons_of_mem _ isSecond)

/-! ### Texts of directories -/

namespace Entry

/-- The text of records: each on a line of its own, in the order of their paths. -/
def recordText (records : List (String × String)) : String :=
  String.join ((sortRecords records).map (·.2 ++ "\n"))

/-- Records of entries, which may lie anywhere. -/
def AreRecords (records : List (String × String)) : Prop :=
  ∀ item ∈ records, ∃ path entry, item.2 = record path entry

/-- A record begins with the kind of its entry, a capital. -/
theorem record_begins (path : String) (entry : Entry) :
    ∃ kind, (record path entry).toList.head? = some kind ∧ kind.isUpper = true := by
  cases entry with
  | file contents => exact ⟨'F', by simp [record], by decide⟩
  | directory entries => exact ⟨'D', by simp [record], by decide⟩
  | link target => exact ⟨'L', by simp [record], by decide⟩

mutual

theorem areRecords_records (exclude : List String) (path : String) (entry : Entry) :
    AreRecords (records exclude path entry) := by
  intro item member
  match entry with
  | .directory entries =>
    rw [records, List.mem_cons] at member
    rcases member with rfl | below
    · exact ⟨path, .directory entries, rfl⟩
    · exact areRecords_recordsBelow exclude _ entries item below
  | .file contents =>
    rw [records, List.mem_singleton] at member
    exact ⟨path, .file contents, congrArg Prod.snd member⟩
  | .link target =>
    rw [records, List.mem_singleton] at member
    exact ⟨path, .link target, congrArg Prod.snd member⟩

theorem areRecords_recordsBelow (exclude : List String) (start : String)
    (entries : List (String × Entry)) : AreRecords (recordsBelow exclude start entries) := by
  intro item member
  match entries with
  | [] => exact nomatch member
  | (name, entry) :: rest =>
    rw [recordsBelow] at member
    split at member
    · exact areRecords_recordsBelow exclude start rest item member
    · rcases List.mem_append.mp member with here | behind
      · exact areRecords_records exclude (start ++ name) entry item here
      · exact areRecords_recordsBelow exclude start rest item behind

end

/-- The text of records is empty or begins with a capital. -/
theorem isUpper_of_head {records : List (String × String)} (areRecords : AreRecords records)
    {letter : Char} (begins : (recordText records).toList.head? = some letter) :
    letter.isUpper = true := by
  rw [recordText] at begins
  cases sorted : sortRecords records with
  | nil =>
    rw [sorted] at begins
    exact nomatch begins
  | cons first rest =>
    have listed : first ∈ records := by
      rw [← List.mem_mergeSort, ← sortRecords, sorted]
      exact List.mem_cons_self
    obtain ⟨path, entry, isRecord⟩ := areRecords first listed
    obtain ⟨kind, first, isUpper⟩ := record_begins path entry
    rw [sorted, List.map_cons, String.join_cons, String.toList_append, String.toList_append,
      isRecord, List.head?_append, List.head?_append, first] at begins
    exact Option.some.inj begins ▸ isUpper

end Entry

namespace FileSystem

/-- The records by which a directory is identified: none if it is left out itself. -/
def recordsAt (system : FileSystem) (path : String) (exclude : List String) :
    List (String × String) :=
  match system.find false path, system.find true path with
  | .ok root, .ok (.directory entries) =>
    if root.isDirectory && exclude.contains ((Path.fileName? path).getD path) then []
    else Entry.recordsBelow exclude "" entries
  | _, _ => []

theorem areRecords_recordsAt (system : FileSystem) (path : String) (exclude : List String) :
    Entry.AreRecords (system.recordsAt path exclude) := by
  intro item member
  rw [recordsAt] at member
  split at member
  · split at member
    · exact nomatch member
    · exact Entry.areRecords_recordsBelow _ _ _ item member
  · exact nomatch member

/-- A directory is identified by the text of its records. -/
theorem directoryHash_eq_ok {system : FileSystem} {path : String} {exclude : List String}
    {hash : ContentHash} (hashed : system.directoryHash path exclude = .ok hash) :
    hash = textHash (Entry.recordText (system.recordsAt path exclude)) := by
  rw [directoryHash] at hashed
  obtain ⟨root, atRoot, hashed⟩ := bind_eq_ok.mp hashed
  obtain ⟨target, atTarget, hashed⟩ := bind_eq_ok.mp hashed
  rw [mapError_eq_ok] at atRoot atTarget
  rw [recordsAt, atRoot, atTarget]
  cases target with
  | directory entries =>
    split at hashed
    · rename_i leftOut
      simp only [leftOut, if_true]
      exact (pure_eq_ok.mp hashed).symm
    · rename_i kept
      simp only [kept]
      exact (pure_eq_ok.mp hashed).symm
  | file contents =>
    have nothing : (Entry.file contents).digest exclude = Entry.digestRecords [] := rfl
    rw [nothing, ite_self] at hashed
    exact (pure_eq_ok.mp hashed).symm
  | link text =>
    have nothing : (Entry.link text).digest exclude = Entry.digestRecords [] := rfl
    rw [nothing, ite_self] at hashed
    exact (pure_eq_ok.mp hashed).symm

end FileSystem

/-! ### Texts of digests -/

/-- The digits of a digest are digits and small letters. -/
theorem Sha256.not_isUpper_of_mem {registers : Registers} {digit : Char}
    (member : digit ∈ hexDigits registers) : digit.isAlphanum = true ∧ digit.isUpper = false := by
  have small : ∀ value : Fin 16,
      (hexDigit value.val).isAlphanum = true ∧ (hexDigit value.val).isUpper = false := by decide
  obtain ⟨value, rfl⟩ := exists_value_of_mem_hexDigits member
  exact small value

/-- A hash begins with a digit of a digest. -/
theorem contentHash_begins (bytes : ByteArray) : ∃ digit,
    (contentHash bytes).toList.head? = some digit ∧
      digit.isAlphanum = true ∧ digit.isUpper = false := by
  have digits : (contentHash bytes).toList = Sha256.hexDigits (Sha256.digest bytes) :=
    String.toList_ofList
  have many := Sha256.length_hexDigits (Sha256.digest bytes)
  obtain ⟨digit, rest, split⟩ := List.exists_cons_of_length_pos
    (Nat.lt_of_lt_of_eq (by decide) many.symm)
  have member : digit ∈ Sha256.hexDigits (Sha256.digest bytes) := by
    rw [split]
    exact List.mem_cons_self
  refine ⟨digit, ?_, Sha256.not_isUpper_of_mem member⟩
  rw [digits, split]
  rfl

namespace Asset

/-! ### Identities -/

/-- The text by which an image is identified. -/
def Image.text (system : FileSystem) (image : Image) : String :=
  textHash (Entry.recordText (system.recordsAt image.directory [])) ++ "\n" ++ image.options.compact

/-- The bytes by which a source is identified: for a file they are its contents. -/
def Source.identity (system : FileSystem) : Source → ByteArray
  | .file path => (system.readFile path).toOption.getD ByteArray.empty
  | .directory path exclude => (Entry.recordText (system.recordsAt path exclude)).toUTF8
  | .inline _ contents => contents
  | .image recipe => (recipe.text system).toUTF8

variable {system : FileSystem} {source : Source} {hash : ContentHash}

/-- A file that has a hash can be read, and is identified by what is read. -/
theorem fileHash_eq_ok {path : String} (hashed : system.fileHash path = .ok hash) :
    system.readFile path = .ok ((Source.file path).identity system) ∧
      hash = contentHash ((Source.file path).identity system) := by
  rw [FileSystem.fileHash] at hashed
  rw [Source.identity]
  cases contents : system.readFile path with
  | ok bytes =>
    rw [contents] at hashed
    exact ⟨rfl, (Except.ok.inj hashed).symm⟩
  | error cause =>
    rw [contents] at hashed
    exact nomatch hashed

/-- The hash of a source is that of its identity. -/
theorem localBundler_eq_ok (hashed : localBundler system source = .ok hash) :
    hash = contentHash (source.identity system) := by
  cases source with
  | file path => exact (fileHash_eq_ok (mapError_eq_ok.mp hashed)).2
  | directory path exclude => exact FileSystem.directoryHash_eq_ok (mapError_eq_ok.mp hashed)
  | inline name contents => exact (Except.ok.inj hashed).symm
  | image recipe =>
    obtain ⟨context, inside, hashed⟩ := bind_eq_ok.mp hashed
    have text := FileSystem.directoryHash_eq_ok (mapError_eq_ok.mp inside)
    rw [text] at hashed
    exact (pure_eq_ok.mp hashed).symm

/-- The identity of an image begins with a digit of a digest. -/
theorem Image.text_begins (system : FileSystem) (image : Image) : ∃ digit,
    (image.text system).toList.head? = some digit ∧
      digit.isAlphanum = true ∧ digit.isUpper = false := by
  obtain ⟨digit, begins, isDigit⟩ :=
    contentHash_begins (Entry.recordText (system.recordsAt image.directory [])).toUTF8
  refine ⟨digit, ?_, isDigit⟩
  rw [Image.text, textHash, String.toList_append, String.toList_append, List.head?_append,
    List.head?_append, begins]
  rfl

/-- No image has the identity of a directory. -/
theorem Image.text_ne_recordText (system : FileSystem) (image : Image)
    {records : List (String × String)} (areRecords : Entry.AreRecords records) :
    image.text system ≠ Entry.recordText records := by
  intro same
  obtain ⟨digit, begins, _, notUpper⟩ := image.text_begins system
  rw [same] at begins
  rw [Entry.isUpper_of_head areRecords begins] at notUpper
  cases notUpper

/-- No image has the identity of a template. -/
theorem Image.text_ne_object (system : FileSystem) (image : Image)
    (members : List (String × Json)) : image.text system ≠ (Json.object members).compact := by
  intro same
  obtain ⟨digit, begins, isAlphanum, _⟩ := image.text_begins system
  rw [same, Json.compact, String.toList_append, String.toList_append] at begins
  have isBrace : digit = '\x7b' := (Option.some.inj begins).symm
  rw [isBrace] at isAlphanum
  exact absurd isAlphanum (by decide)

end Asset

end StackSynth
