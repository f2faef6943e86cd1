/-
This file holds operations that have a domain: what a lookup has found, a number less another one,
the first elements of a list, and a text cut behind so many bytes. Outside of its domain each of
them faults. What is computed with them is compared elsewhere with the definitions of this library,
whose operations have no domain; where the two agree no operation faults.
-/

import StackSynth.Proofs.Outcome

namespace StackSynth

/-- How an operation leaves its domain. -/
inductive Guarded.Fault where
  /-- Nothing is there to be looked up. -/
  | absent
  /-- More elements are wanted than there are. -/
  | beyondEnd
  /-- A text is cut between the bytes of a character. -/
  | insideCharacter
  /-- More is taken away than there is. -/
  | belowZero
deriving DecidableEq, Repr

/-- What comes of operations that may fault. -/
abbrev Guarded (α : Type) : Type := Except Guarded.Fault α

namespace Guarded

variable {α β σ : Type}

/-- What a lookup has found. -/
def known : Option α → Guarded α
  | some value => .ok value
  | none => .error .absent

/-- A number less another one. -/
def less (number amount : Nat) : Guarded Nat :=
  if amount ≤ number then .ok (number - amount) else .error .belowZero

/-- The first elements of a list. -/
def firsts (length : Nat) (items : List α) : Guarded (List α) :=
  if length ≤ items.length then .ok (items.take length) else .error .beyondEnd

/-- A text cut behind so many bytes. A text that has no more stays as it is. -/
def cut (length : Nat) (text : String) : Guarded String :=
  if text.utf8ByteSize < length then .ok text
  else if isBoundary : String.Pos.Raw.IsValid text ⟨length⟩ then
    .ok (text.sliceTo (text.pos ⟨length⟩ isBoundary)).copy
  else .error .insideCharacter

/-- The first bytes of a text, which must have so many. -/
def front (length : Nat) (text : String) : Guarded String :=
  if length ≤ text.utf8ByteSize then cut length text else .error .beyondEnd

theorem less_of_le {number amount : Nat} (within : amount ≤ number) :
    less number amount = .ok (number - amount) := if_pos within

theorem firsts_of_le {length : Nat} {items : List α} (within : length ≤ items.length) :
    firsts length items = .ok (items.take length) := if_pos within

/-- A search in which no test faults finds what the plain tests find. -/
theorem anyM_eq_ok {test : α → Guarded Bool} {plain : α → Bool} :
    ∀ {items : List α}, (∀ item ∈ items, test item = .ok (plain item)) →
      items.anyM test = .ok (items.any plain) := by
  intro items tested
  induction items with
  | nil => rfl
  | cons item rest inductionHypothesis =>
    rw [List.anyM_cons, tested item List.mem_cons_self, List.any_cons]
    cases plain item with
    | true => rfl
    | false => exact inductionHypothesis fun other member => tested other (.tail item member)

/-- A loop in which no turn faults while something holds, which each turn keeps, comes to what the
plain turns come to. -/
theorem foldlM_eq_ok {turn : σ → α → Guarded σ} {plain : σ → α → σ}
    (holds : List α → σ → Prop) : ∀ {items : List α} {state : σ}, holds items state →
      (∀ item rest state, holds (item :: rest) state →
        turn state item = .ok (plain state item) ∧ holds rest (plain state item)) →
      items.foldlM turn state = .ok (items.foldl plain state) := by
  intro items state atStart kept
  induction items generalizing state with
  | nil => rfl
  | cons item rest inductionHypothesis =>
    obtain ⟨done, further⟩ := kept item rest state atStart
    rw [List.foldlM_cons, done, List.foldl_cons]
    exact inductionHypothesis further

/-- What tests that do not fault keep is what the plain tests keep. -/
theorem filterM_eq_ok {α : Type} {test : α → Guarded Bool} {plain : α → Bool} {items : List α}
    (tested : ∀ item ∈ items, test item = .ok (plain item)) :
    items.filterM test = .ok (items.filter plain) := by
  have kept : ∀ front : List α,
      items.filterAuxM test front = .ok ((items.filter plain).reverse ++ front) := by
    induction items with
    | nil => exact fun _ => rfl
    | cons item rest inductionHypothesis =>
      intro front
      have others := inductionHypothesis fun other member => tested other (.tail item member)
      rw [List.filterAuxM, tested item List.mem_cons_self, Outcome.ok_bind, others,
        List.filter_cons]
      cases plain item with
      | true => simp
      | false => rfl
  rw [List.filterM, kept, Outcome.ok_bind, List.append_nil, List.reverse_reverse]
  rfl

/-! ### Texts of one byte a character -/

/-- A text whose characters take one byte each. -/
def Ascii (text : String) : Prop := ∀ letter ∈ text.toList, letter.utf8Size = 1

theorem utf8ByteSize_of_ascii {text : String} (ascii : Ascii text) :
    text.utf8ByteSize = text.length := by
  have counted : ∀ letters : List Char, (∀ letter ∈ letters, letter.utf8Size = 1) →
      (String.ofList letters).utf8ByteSize = letters.length := by
    intro letters single
    induction letters with
    | nil => rfl
    | cons letter rest inductionHypothesis =>
      rw [String.ofList_cons, String.utf8ByteSize_append, String.utf8ByteSize_singleton,
        single letter List.mem_cons_self, List.length_cons, Nat.add_comm,
        inductionHypothesis fun other member => single other (.tail letter member)]
  rw [← String.length_toList, ← counted text.toList ascii, String.ofList_toList]

/-- A text is cut behind the front that has so many bytes. -/
theorem cut_append (front back : String) :
    cut front.utf8ByteSize (front ++ back) = .ok front := by
  have boundary : String.Pos.Raw.IsValid (front ++ back) ⟨front.utf8ByteSize⟩ :=
    String.Pos.Raw.isValid_iff_exists_append.mpr ⟨front, back, rfl, rfl⟩
  have within : ¬(front ++ back).utf8ByteSize < front.utf8ByteSize := by
    rw [String.utf8ByteSize_append]
    exact Nat.not_lt_of_le (Nat.le_add_right _ _)
  rw [cut, if_neg within, dif_pos boundary]
  exact congrArg Except.ok String.Pos.splits_append_rawEndPos.copy_sliceTo_eq

/-- Where every character takes one byte, a text can be cut anywhere, and what is left are as many
characters. -/
theorem cut_of_ascii {text : String} (ascii : Ascii text) (length : Nat) :
    cut length text = .ok (String.ofList (text.toList.take length)) := by
  by_cases short : text.utf8ByteSize < length
  · rw [cut, if_pos short, List.take_of_length_le, String.ofList_toList]
    rw [String.length_toList, ← utf8ByteSize_of_ascii ascii]
    exact Nat.le_of_lt short
  · have parts : text =
        String.ofList (text.toList.take length) ++ String.ofList (text.toList.drop length) := by
      rw [← String.ofList_append, List.take_append_drop, String.ofList_toList]
    have asciiFront : Ascii (String.ofList (text.toList.take length)) := by
      intro letter member
      rw [String.toList_ofList] at member
      exact ascii letter (List.mem_of_mem_take member)
    have size : (String.ofList (text.toList.take length)).utf8ByteSize = length := by
      rw [utf8ByteSize_of_ascii asciiFront, String.length_ofList, List.length_take,
        String.length_toList, ← utf8ByteSize_of_ascii ascii]
      exact Nat.min_eq_left (Nat.le_of_not_lt short)
    have done := cut_append (String.ofList (text.toList.take length))
      (String.ofList (text.toList.drop length))
    rwa [size, ← parts] at done

example : cut 1 "é" = .error .insideCharacter := by decide +kernel

end Guarded

end StackSynth
