/-
This file proves that quoted strings are read back. The escape of a character is read as that
character whatever follows it, and the closing quote begins no escape, so the scanner finds the text
and the characters behind it. A text is therefore told apart by its quoted form, even where more is
written behind it.
-/

import StackSynth.Json.Literal
import StackSynth.Json.Printer

namespace StackSynth.Json

/-! ### One character -/

/-- A character that is written as four hexadecimal digits is read back from them. -/
theorem hexValues?_controlDigits {code : Nat} (control : code < 0x20) :
    hexValues? '0' '0' ((Nat.toDigits 16 (code / 16)).headD '0')
      ((Nat.toDigits 16 (code % 16)).headD '0') = some code := by
  have each : ∀ code : Fin 0x20, hexValues? '0' '0' ((Nat.toDigits 16 (code.val / 16)).headD '0')
      ((Nat.toDigits 16 (code.val % 16)).headD '0') = some code.val := by
    decide
  exact each ⟨code, control⟩

/-- How a character is escaped: by a letter that names it, by its code, or not at all. -/
theorem escape_cases (character : Char) :
    (∃ letter, letter ≠ 'u' ∧ escape character = ['\\', letter] ∧
      namedEscape? letter = some character) ∨
    (character.toNat < 0x20 ∧
      escape character = '\\' :: 'u' :: controlDigits character.toNat) ∨
    (escape character = [character] ∧ character ≠ '"' ∧ character ≠ '\\' ∧
      ¬character.toNat < 0x20) := by
  by_cases named : character ∈ ['"', '\\', '\x08', '\x0c', '\n', '\r', '\t']
  · left
    simp only [List.mem_cons, List.not_mem_nil, or_false] at named
    rcases named with rfl | rfl | rfl | rfl | rfl | rfl | rfl
    · exact ⟨'"', by decide, rfl, rfl⟩
    · exact ⟨'\\', by decide, rfl, rfl⟩
    · exact ⟨'b', by decide, rfl, rfl⟩
    · exact ⟨'f', by decide, rfl, rfl⟩
    · exact ⟨'n', by decide, rfl, rfl⟩
    · exact ⟨'r', by decide, rfl, rfl⟩
    · exact ⟨'t', by decide, rfl, rfl⟩
  · right
    simp only [List.mem_cons, List.not_mem_nil, or_false, not_or] at named
    obtain ⟨notQuote, notBackslash, notBack, notFeed, notLine, notReturn, notTab⟩ := named
    by_cases control : character.toNat < 0x20
    · left
      refine ⟨control, ?_⟩
      simp only [escape, if_neg notQuote, if_neg notBackslash, if_neg notBack, if_neg notFeed,
        if_neg notLine, if_neg notReturn, if_neg notTab, if_pos control]
    · right
      refine ⟨?_, notQuote, notBackslash, control⟩
      simp only [escape, if_neg notQuote, if_neg notBackslash, if_neg notBack, if_neg notFeed,
        if_neg notLine, if_neg notReturn, if_neg notTab, if_neg control]

theorem skipString_escape (character : Char) (rest : List Char) :
    skipString (escape character ++ rest) = skipString rest := by
  rcases escape_cases character with ⟨letter, notCode, written, named⟩ | ⟨control, written⟩ |
    ⟨written, notQuote, notBackslash, notControl⟩
  · rw [written]
    show skipString ('\\' :: letter :: rest) = _
    rw [skipString]
    · rw [named]
      rfl
    all_goals simp_all
  · rw [written, controlDigits]
    show skipString ('\\' :: 'u' :: '0' :: '0' :: _ :: _ :: rest) = _
    rw [skipString, hexValues?_controlDigits control]
  · rw [written]
    show skipString (character :: rest) = _
    rw [skipString, if_neg notControl]
    all_goals simp_all

/-- The escape of a character is read as the character. -/
theorem readString_escape (character : Char) (rest : List Char) :
    readString (escape character ++ rest) = (readString rest).map (character :: ·) := by
  rcases escape_cases character with ⟨letter, notCode, written, named⟩ | ⟨control, written⟩ |
    ⟨written, notQuote, notBackslash, notControl⟩
  · rw [written]
    show readString ('\\' :: letter :: rest) = _
    rw [readString]
    · rw [named]
    all_goals simp_all
  · rw [written, controlDigits]
    show readString ('\\' :: 'u' :: '0' :: '0' :: _ :: _ :: rest) = _
    rw [readString, hexValues?_controlDigits control]
    -- a code this small is no half of a surrogate pair
    have notTrailing : decide (0xdc00 ≤ character.toNat) = false := by
      rw [decide_eq_false_iff_not]
      omega
    have notLeading : decide (0xd800 ≤ character.toNat) = false := by
      rw [decide_eq_false_iff_not]
      omega
    simp [notTrailing, notLeading]
  · rw [written]
    show readString (character :: rest) = _
    rw [readString, if_neg notControl]
    all_goals simp_all

/-! ### Whole strings -/

/-- A quoted string is read back, whatever is written behind it. -/
theorem scanString_quoted (text : String) (rest : List Char) :
    scanString (text.toList.flatMap escape ++ '"' :: rest) = .ok (.ok text, rest) := by
  have skipped : ∀ letters : List Char,
      skipString (letters.flatMap escape ++ '"' :: rest) = .ok rest := by
    intro letters
    induction letters with
    | nil => rfl
    | cons letter letters inductionHypothesis =>
      rw [List.flatMap_cons, List.append_assoc, skipString_escape, inductionHypothesis]
  have readBack : ∀ letters : List Char,
      readString (letters.flatMap escape ++ '"' :: rest) = .ok letters := by
    intro letters
    induction letters with
    | nil => rfl
    | cons letter letters inductionHypothesis =>
      rw [List.flatMap_cons, List.append_assoc, readString_escape, inductionHypothesis]
      rfl
  rw [scanString, skipped, readBack, Except.map, String.ofList_toList]

/-- Where two texts begin with quoted strings, these are the same if the texts are, and so is what
is behind them. -/
theorem quote_append_injective {first second after behind : String}
    (same : quote first ++ after = quote second ++ behind) : first = second ∧ after = behind := by
  have letters : ∀ text rest : String, (quote text ++ rest).toList =
      '"' :: (text.toList.flatMap escape ++ '"' :: rest.toList) := by
    intro text rest
    simp [quote]
  have sameLetters := congrArg String.toList same
  rw [letters, letters] at sameLetters
  have scanned := congrArg scanString (List.cons.inj sameLetters).2
  rw [scanString_quoted, scanString_quoted] at scanned
  obtain ⟨sameText, sameRest⟩ := Prod.mk.inj (Except.ok.inj scanned)
  exact ⟨Except.ok.inj sameText, String.ext_iff.mpr sameRest⟩

end StackSynth.Json
