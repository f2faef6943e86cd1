/-
This file holds the literals of JSON text: words, numbers and quoted strings. Each is scanned from
the characters that follow and gives back those behind it. A scan that fails tells the fault of
reading the literal and that of passing over it, which differ where reading looks closer.
-/

import StackSynth.Json.Outline

namespace StackSynth.Json

/-! ### Words -/

/-- The characters behind an expected word. -/
def scanWord : List Char → List Char → Except Break (List Char)
  | [], rest => .ok rest
  | _ :: _, [] => .error (.both .truncated)
  | expected :: word, character :: rest =>
    if character = expected then scanWord word rest else .error (.both .malformed)

/-! ### Numbers -/

/-- The parts of a number as written. -/
structure NumberLiteral where
  negative : Bool
  whole : List Char
  fraction : Option (List Char)
  exponent : Option (Bool × List Char)

/-- The value of a decimal digit. -/
def digitValue (digit : Char) : Nat := digit.toNat - 48

/-- The value of decimal digits. -/
def digitsValue (digits : List Char) : Nat :=
  digits.foldl (fun value digit => 10 * value + digitValue digit) 0

/-- The greatest significand that is kept exactly while digits are read. -/
def significandLimit : Nat := Nat.pow 2 64

/-- Reads the digits before the point into a significand; digits that no longer fit only raise
the exponent. -/
def readWhole (digits : List Char) : Nat × Int :=
  let result := digits.foldl (fun (state : Nat × Int × Bool) digit =>
    let next := 10 * state.1 + digitValue digit
    if state.2.2 || next ≥ significandLimit then (state.1, state.2.1 + 1, true)
    else (next, state.2.1, false)) (0, 0, false)
  (result.1, result.2.1)

/-- Reads the digits behind the point; digits that no longer fit are dropped, with all behind
them. -/
def readFraction : List Char → Nat × Int → Nat × Int
  | [], state => state
  | digit :: rest, state =>
    let next := 10 * state.1 + digitValue digit
    if next ≥ significandLimit then state else readFraction rest (next, state.2 - 1)

/-- The number that a literal stands for; none if it is beyond all finite numbers. A literal with
neither point nor exponent is whole if it fits 64 bits, and minus zero is not whole. -/
def NumberLiteral.value? (literal : NumberLiteral) : Option Number :=
  let real (state : Nat × Int) : Option Number :=
    (Binary64.ofDecimal literal.negative state.1 state.2).map .real
  match literal.fraction, literal.exponent with
  | none, none =>
    let value := digitsValue literal.whole
    if value ≥ significandLimit then real (readWhole literal.whole)
    else if !literal.negative then some (.whole value)
    else if value = 0 || value > Nat.pow 2 63 then real (value, 0)
    else some (.whole (-(value : Int)))
  | fraction, exponent =>
    let state := readFraction (fraction.getD []) (readWhole literal.whole)
    match exponent with
    | none => real state
    | some (below, digits) =>
      let shift := digitsValue digits
      real (state.1, if below then state.2 - shift else state.2 + shift)

/-- Whether a character is a decimal digit. -/
def isDigit (character : Char) : Bool := '0' ≤ character && character ≤ '9'

/-- One or more digits and the characters behind them. Where there is none, the text has ended
or goes on with something else. -/
def scanDigits (rest : List Char) : Except Break (List Char × List Char) :=
  match rest with
  | [] => .error ⟨.truncated, .malformed⟩
  | character :: _ =>
    if isDigit character then .ok (rest.takeWhile isDigit, rest.dropWhile isDigit)
    else .error ⟨.malformed, .malformed⟩

/-- The digits before the point, which begin with a zero only if that is the only one. -/
def scanWhole (rest : List Char) : Except Break (List Char × List Char) :=
  match rest with
  | '0' :: next :: _ => if isDigit next then .error (.both .malformed) else scanDigits rest
  | _ => scanDigits rest

/-- The point and the digits behind it, if there is a point. -/
def scanFraction (rest : List Char) : Except Break (Option (List Char) × List Char) :=
  match rest with
  | '.' :: rest => (scanDigits rest).map (fun scanned => (some scanned.1, scanned.2))
  | _ => .ok (none, rest)

/-- The exponent, if there is one: whether it is negative, and its digits. -/
def scanExponent (rest : List Char) : Except Break (Option (Bool × List Char) × List Char) :=
  let digits (below : Bool) (rest : List Char) :=
    (scanDigits rest).map (fun scanned => (some (below, scanned.1), scanned.2))
  let signed : List Char → Except Break (Option (Bool × List Char) × List Char)
    | '+' :: rest => digits false rest
    | '-' :: rest => digits true rest
    | rest => digits false rest
  match rest with
  | 'e' :: rest => signed rest
  | 'E' :: rest => signed rest
  | _ => .ok (none, rest)

/-- A number and the characters behind it. -/
def scanNumber (rest : List Char) : Except Break (NumberLiteral × List Char) := do
  let (negative, rest) := match rest with
    | '-' :: rest => (true, rest)
    | _ => (false, rest)
  let (whole, rest) ← scanWhole rest
  let (fraction, rest) ← scanFraction rest
  let (exponent, rest) ← scanExponent rest
  return (⟨negative, whole, fraction, exponent⟩, rest)

/-! ### Quoted strings -/

/-- The value of a hexadecimal digit. -/
def hexValue? (digit : Char) : Option Nat :=
  if isDigit digit then some (digit.toNat - 48)
  else if 'a' ≤ digit && digit ≤ 'f' then some (digit.toNat - 87)
  else if 'A' ≤ digit && digit ≤ 'F' then some (digit.toNat - 55)
  else none

/-- The value of four hexadecimal digits. -/
def hexValues? (a b c d : Char) : Option Nat := do
  return 16 * (16 * (16 * (← hexValue? a) + (← hexValue? b)) + (← hexValue? c)) + (← hexValue? d)

/-- The fault of an escape without four hexadecimal digits: the text has ended if fewer than four
bytes are left. -/
def shortEscape (rest : List Char) : Fault :=
  if (String.ofList rest).utf8ByteSize < 4 then .truncated else .malformed

/-- The character that a one-letter escape stands for. -/
def namedEscape? (letter : Char) : Option Char :=
  if letter = '"' then some '"'
  else if letter = '\\' then some '\\'
  else if letter = '/' then some '/'
  else if letter = 'b' then some '\x08'
  else if letter = 'f' then some '\x0c'
  else if letter = 'n' then some '\n'
  else if letter = 'r' then some '\r'
  else if letter = 't' then some '\t'
  else none

/-- Passes over a string whose opening quote has been taken. -/
def skipString : List Char → Except Fault (List Char)
  | [] => .error .truncated
  | '"' :: rest => .ok rest
  | ['\\'] => .error .truncated
  | '\\' :: 'u' :: a :: b :: c :: d :: rest =>
    match hexValues? a b c d with
    | some _ => skipString rest
    | none => .error (shortEscape (a :: b :: c :: d :: rest))
  | '\\' :: 'u' :: rest => .error (shortEscape rest)
  | '\\' :: letter :: rest =>
    if (namedEscape? letter).isSome then skipString rest else .error .malformed
  | character :: rest => if character.toNat < 0x20 then .error .malformed else skipString rest

/-- The characters of a string whose opening quote has been taken. Escaped surrogates must come
in pairs, the leading one first. -/
def readString : List Char → Except Fault (List Char)
  | [] => .error .truncated
  | '"' :: _ => .ok []
  | ['\\'] => .error .truncated
  | '\\' :: 'u' :: a :: b :: c :: d :: rest =>
    match hexValues? a b c d with
    | none => .error (shortEscape (a :: b :: c :: d :: rest))
    | some unit =>
      if 0xdc00 ≤ unit && unit ≤ 0xdfff then .error .malformed
      else if 0xd800 ≤ unit && unit ≤ 0xdbff then
        match rest with
        | [] => .error .truncated
        | ['\\'] => .error .truncated
        | '\\' :: 'u' :: e :: f :: g :: h :: rest =>
          match hexValues? e f g h with
          | none => .error (shortEscape (e :: f :: g :: h :: rest))
          | some second =>
            if 0xdc00 ≤ second && second ≤ 0xdfff then
              let code := 0x10000 + 0x400 * (unit - 0xd800) + (second - 0xdc00)
              (readString rest).map (Char.ofNat code :: ·)
            else .error .malformed
        | '\\' :: 'u' :: rest => .error (shortEscape rest)
        | _ => .error .malformed
      else (readString rest).map (Char.ofNat unit :: ·)
  | '\\' :: 'u' :: rest => .error (shortEscape rest)
  | '\\' :: letter :: rest =>
    match namedEscape? letter with
    | some character => (readString rest).map (character :: ·)
    | none => .error .malformed
  | character :: rest =>
    if character.toNat < 0x20 then .error .malformed
    else (readString rest).map (character :: ·)

/-- A string whose opening quote has been taken: what reading it gives, and the characters
behind it. -/
def scanString (rest : List Char) : Except Break (Except Fault String × List Char) :=
  let content := (readString rest).map String.ofList
  match skipString rest, content with
  | .ok rest, _ => .ok (content, rest)
  | .error skipping, .error reading => .error ⟨reading, skipping⟩
  | .error skipping, .ok _ => .error (.both skipping)

end StackSynth.Json
