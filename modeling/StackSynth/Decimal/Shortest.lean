/-
This file writes a number with the fewest decimal digits that still read back as it. For each
count of digits the two neighbours of the number on that decimal grid are tried against the
interval of reals that round to it, all in exact arithmetic; the first count with a hit is the
least one, and of two hits the nearer is taken. How the digits are laid out is a record of its
own, so that a format states its decisions in one value.
-/

import StackSynth.Decimal.Binary64

namespace StackSynth

namespace Binary64

/-! ### Comparison with decimals -/

/-- A non-negative decimal `digits · 10 ^ power`. -/
structure Decimal where
  digits : Nat
  power : Int
deriving DecidableEq, Repr

/-- The order of `digits · 10 ^ power` and `quarters · 2 ^ (exponent - 2)`. -/
def compareDecimal (decimal : Decimal) (quarters : Nat) (exponent : Int) : Ordering :=
  compare
    (decimal.digits * Nat.pow 10 decimal.power.toNat * Nat.pow 2 (2 - exponent).toNat)
    (quarters * Nat.pow 10 (-decimal.power).toNat * Nat.pow 2 (exponent - 2).toNat)

/-- The distance between `digits · 10 ^ power` and `quarters · 2 ^ (exponent - 2)`, in units that
depend on the two powers only. -/
def distance (decimal : Decimal) (quarters : Nat) (exponent : Int) : Nat :=
  let left := decimal.digits * Nat.pow 10 decimal.power.toNat * Nat.pow 2 (2 - exponent).toNat
  let right := quarters * Nat.pow 10 (-decimal.power).toNat * Nat.pow 2 (exponent - 2).toNat
  (left - right) + (right - left)

/-- Four times the significand, less half the gap to the number below: a quarter of a unit if that
number has a smaller exponent, otherwise half a unit. -/
def lowerBound (number : Binary64) : Nat :=
  if number.significand = Nat.pow 2 52 && number.exponent > leastExponent then
    4 * number.significand - 1
  else 4 * number.significand - 2

/-- Four times the significand, plus half a unit. -/
def upperBound (number : Binary64) : Nat := 4 * number.significand + 2

/-- Whether the decimal rounds to the magnitude of the number. The ends of the interval belong to
it iff the significand is even. -/
def reads (number : Binary64) (decimal : Decimal) : Bool :=
  let below := compareDecimal decimal number.lowerBound number.exponent
  let above := compareDecimal decimal number.upperBound number.exponent
  if number.significand % 2 == 0 then below != .lt && above != .gt
  else below == .gt && above == .lt

/-! ### The search -/

/-- The exponent of the leading decimal digit of a non-zero number. -/
def leadingPower (number : Binary64) : Int :=
  let bits := (number.significand.log2 : Int) + number.exponent
  let estimate := (bits * 1233) / 4096
  let atMost (power : Int) : Bool :=
    compareDecimal ⟨1, power⟩ (4 * number.significand) number.exponent != .gt
  if atMost (estimate + 1) then estimate + 1
  else if atMost estimate then estimate
  else estimate - 1

/-- The greatest point of the grid of `10 ^ power` that is not above the number. -/
def gridBelow (number : Binary64) (power : Int) : Decimal :=
  let numerator := number.significand * Nat.pow 2 number.exponent.toNat * Nat.pow 10 (-power).toNat
  let denominator := Nat.pow 2 (-number.exponent).toNat * Nat.pow 10 power.toNat
  ⟨numerator / denominator, power⟩

/-- The point of the grid of `10 ^ power` that reads back as the number and is nearest to it, the
even one of two equally near. -/
def onGrid? (number : Binary64) (power : Int) : Option Decimal :=
  let below := number.gridBelow power
  let above : Decimal := ⟨below.digits + 1, power⟩
  match number.reads below, number.reads above with
  | true, true =>
    let toBelow := distance below (4 * number.significand) number.exponent
    let toAbove := distance above (4 * number.significand) number.exponent
    if toBelow < toAbove || (toBelow == toAbove && below.digits % 2 == 0) then some below
    else some above
  | true, false => some below
  | false, true => some above
  | false, false => none

/-- The decimal without trailing zeros; `fuel` bounds their number. -/
def stripZeros : Nat → Decimal → Decimal
  | 0, decimal => decimal
  | fuel + 1, decimal =>
    if decimal.digits ≠ 0 && decimal.digits % 10 == 0 then
      stripZeros fuel ⟨decimal.digits / 10, decimal.power + 1⟩
    else decimal

/-- The shortest decimal that reads back as the magnitude of the number. Seventeen digits always
do. -/
def shortest (number : Binary64) : Decimal :=
  if number.isZero then ⟨0, 0⟩
  else
    let leading := number.leadingPower
    let counts := (List.range 17).map (fun (count : Nat) => leading - (count : Int))
    stripZeros 18 ((counts.findSome? number.onGrid?).getD (number.gridBelow (leading - 16)))

/-! ### Layout -/

/-- How the digits of a number are laid out. -/
structure Layout where
  /-- The least leading exponent that is written positionally. -/
  leastPositional : Int
  /-- The greatest leading exponent that is written positionally. -/
  greatestPositional : Int
  /-- What stands after a whole number. -/
  wholeSuffix : String
  /-- The mark before an exponent. -/
  exponentMark : String
  /-- The sign of an exponent that is not negative. -/
  exponentPlus : String

/-- The text of `shortest` under a layout. -/
def render (layout : Layout) (number : Binary64) : String :=
  let decimal := number.shortest
  let digits := (Nat.toDigits 10 decimal.digits)
  let leading : Int := decimal.power + digits.length - 1
  let magnitude :=
    if leading < layout.leastPositional || leading > layout.greatestPositional then
      let fraction := match digits.drop 1 with
        | [] => []
        | rest => '.' :: rest
      let sign := if leading < 0 then "-" else layout.exponentPlus
      String.ofList (digits.take 1 ++ fraction) ++ layout.exponentMark ++ sign
        ++ toString leading.natAbs
    else if decimal.power ≥ 0 then
      String.ofList (digits ++ List.replicate decimal.power.toNat '0') ++ layout.wholeSuffix
    else if leading ≥ 0 then
      let whole := leading.toNat + 1
      String.ofList (digits.take whole ++ '.' :: digits.drop whole)
    else
      String.ofList ('0' :: '.' :: List.replicate (-leading - 1).toNat '0' ++ digits)
  if number.negative then "-" ++ magnitude else magnitude

end Binary64

end StackSynth
