/-
This file holds the finite numbers of the 64-bit binary format and the three operations that
reading a decimal needs: rounding a quotient, multiplying and dividing. All of them are exact
arithmetic on natural numbers followed by one rounding to nearest, halves to even.
-/

namespace StackSynth

/-- A finite number of the 64-bit binary format: `±significand · 2 ^ exponent`, with fifty-three
significant bits and no exponent below `-1074`. -/
structure Binary64 where
  negative : Bool
  significand : Nat
  exponent : Int
deriving DecidableEq, Repr

namespace Binary64

/-- The least exponent, that of the numbers next to zero. -/
def leastExponent : Int := -1074

/-- The greatest exponent. -/
def greatestExponent : Int := 971

/-- Zero with its sign. -/
def zero (negative : Bool) : Binary64 := ⟨negative, 0, leastExponent⟩

/-- Whether the number is zero, of either sign. -/
def isZero (number : Binary64) : Bool := number.significand == 0

/-- `numerator / denominator · 2 ^ exponent` as a quotient of natural numbers. -/
def scaledQuotient (numerator denominator : Nat) (exponent : Int) : Nat × Nat :=
  if 0 ≤ exponent then (numerator * Nat.pow 2 exponent.toNat, denominator)
  else (numerator, denominator * Nat.pow 2 (-exponent).toNat)

/-- The exponent of the leading bit of a positive quotient. -/
def leadingExponent (numerator denominator : Nat) : Int :=
  let estimate : Int := (numerator.log2 : Int) - (denominator.log2 : Int)
  let scaled := scaledQuotient numerator denominator (-estimate)
  if scaled.1 < scaled.2 then estimate - 1 else estimate

/-- The natural number nearest to a quotient; of two equally near ones the even one. -/
def nearestNat (numerator denominator : Nat) : Nat :=
  let quotient := numerator / denominator
  let twiceRest := 2 * (numerator % denominator)
  if twiceRest > denominator || (twiceRest == denominator && quotient % 2 == 1) then quotient + 1
  else quotient

/-- The non-negative number nearest to `numerator / denominator · 2 ^ exponent`; none if that is
beyond the greatest finite number. -/
def nearest (numerator denominator : Nat) (exponent : Int) : Option Binary64 :=
  if numerator = 0 then some (zero false)
  else
    let quotient := scaledQuotient numerator denominator exponent
    let unit := max (leadingExponent quotient.1 quotient.2 - 52) leastExponent
    let inUnits := scaledQuotient quotient.1 quotient.2 (-unit)
    let significand := nearestNat inUnits.1 inUnits.2
    let rounded : Binary64 :=
      if significand = Nat.pow 2 53 then ⟨false, Nat.pow 2 52, unit + 1⟩
      else ⟨false, significand, unit⟩
    if rounded.exponent > greatestExponent then none else some rounded

/-- The product of two non-negative numbers, rounded once. -/
def times (first second : Binary64) : Option Binary64 :=
  nearest (first.significand * second.significand) 1 (first.exponent + second.exponent)

/-- The quotient of two non-negative numbers, rounded once. -/
def dividedBy (first second : Binary64) : Option Binary64 :=
  nearest first.significand second.significand (first.exponent - second.exponent)

/-- The number nearest to a power of ten that is in range. -/
def powerOfTen (exponent : Nat) : Binary64 := (nearest (Nat.pow 10 exponent) 1 0).getD (zero false)

/-- `number / 10 ^ places`, in steps of at most 308 places, each rounded. -/
def scaleDown (number : Binary64) (places : Nat) : Option Binary64 :=
  if places ≤ 308 then number.dividedBy (powerOfTen places)
  else if number.isZero then some number
  else do
    let next ← number.dividedBy (powerOfTen 308)
    scaleDown next (places - 308)
termination_by places

/-- The number read for `±digits · 10 ^ exponent`: the digits are rounded, the power of ten is
rounded, and their product or quotient is rounded again. None if that overflows. -/
def ofDecimal (negative : Bool) (digits : Nat) (exponent : Int) : Option Binary64 := do
  let whole ← nearest digits 1 0
  let magnitude ←
    if exponent < 0 then scaleDown whole (-exponent).toNat
    else if exponent ≤ 308 then whole.times (powerOfTen exponent.toNat)
    else if whole.isZero then some whole
    else none
  return { magnitude with negative := negative }

end Binary64

end StackSynth
