import TeenyBasic.Number.Binary

/-!
# Decimals

A decimal is a whole number of units of a power of ten.  `Decimal.toFloat` rounds it to the
nearest double; `shortest` goes back and finds the decimal with the fewest digits that still
rounds to a given double.

For that, multiples of `10 ^ power` form a grid.  The reals that round to `mantissa * 2 ^ exponent`
form an interval around it, and the shortest decimal is the point on the coarsest grid that meets
this interval.  Everything is compared in whole numbers: on the grid of `10 ^ power` the double is
`mantissa * unit / scale`.
-/

namespace TeenyBasic
namespace Number

/-- The number `digits * 10 ^ exponent`. -/
structure Decimal where
  digits : Nat
  exponent : Int
  deriving DecidableEq, Repr

/-- How many decimal digits a number is written with. -/
def digitCount (number : Nat) : Nat :=
  (Nat.toDigits 10 number).length

/-- The bits of the double nearest to a decimal.  A decimal far above or far below every double
is settled by its number of digits alone. -/
def Decimal.nearestBits (decimal : Decimal) : Nat :=
  let top := decimal.exponent + digitCount decimal.digits
  if decimal.digits = 0 || top < -330 then 0
  else if 310 < top then infinityBits
  else
    Number.nearestBits (decimal.digits * Nat.pow 10 decimal.exponent.toNat)
      (Nat.pow 10 (-decimal.exponent).toNat)

/-- The double nearest to a decimal with a sign. -/
def Decimal.toFloat (decimal : Decimal) (negative : Bool) : Float :=
  ofSignedBits negative decimal.nearestBits

/-- What one unit of the mantissa weighs on a grid, before division by `gridScale`. -/
def gridUnit (exponent power : Int) : Nat :=
  Nat.pow 2 exponent.toNat * Nat.pow 10 (-power).toNat

def gridScale (exponent power : Int) : Nat :=
  Nat.pow 2 (-exponent).toNat * Nat.pow 10 power.toNat

/-- How far the interval reaches below the mantissa, in quarters: half a unit, but only a quarter
where the next smaller doubles lie twice as close. -/
def quartersBelow (mantissa : Nat) (exponent : Int) : Nat :=
  if mantissa = Nat.pow 2 52 && decide (leastExponent < exponent) then 1 else 2

/-- Whether a grid point rounds to the double; the ends of the interval do so if the mantissa is
even. -/
def roundsBack (mantissa : Nat) (exponent power : Int) (point : Nat) : Bool :=
  let unit := gridUnit exponent power
  let place := 4 * point * gridScale exponent power
  let low := (4 * mantissa - quartersBelow mantissa exponent) * unit
  let high := (4 * mantissa + 2) * unit
  if mantissa % 2 = 0 then low ≤ place && place ≤ high else low < place && place < high

/-- The grid point that rounds to the double and is nearest to it, a tie going to the even
point. -/
def gridPoint? (mantissa : Nat) (exponent power : Int) : Option Nat :=
  let numerator := mantissa * gridUnit exponent power
  let scale := gridScale exponent power
  let below := numerator / scale
  match roundsBack mantissa exponent power below,
      roundsBack mantissa exponent power (below + 1) with
  | true, true => some (roundHalfEven numerator scale)
  | true, false => some below
  | false, true => some (below + 1)
  | false, false => none

/-- The first grid that meets the interval, going down one power at a time. -/
def coarsestFrom (mantissa : Nat) (exponent : Int) : Nat → Int → Decimal
  | 0, power => ⟨mantissa * gridUnit exponent power / gridScale exponent power, power⟩
  | steps + 1, power =>
      match gridPoint? mantissa exponent power with
      | some point => ⟨point, power⟩
      | none => coarsestFrom mantissa exponent steps (power - 1)

/-- The least power of ten above a positive number `mantissa * 2 ^ exponent`. -/
def powerAbove (mantissa : Nat) (exponent : Int) : Int :=
  let numerator := mantissa * Nat.pow 2 exponent.toNat
  let denominator := Nat.pow 2 (-exponent).toNat
  if denominator ≤ numerator then digitCount (numerator / denominator)
  else 1 - digitCount ((denominator - 1) / numerator)

/-- The shortest decimal that rounds to `mantissa * 2 ^ exponent`, for a positive mantissa.  The
search ends at the latest on the grid of `10 ^ min exponent 0`, where the number itself lies. -/
def shortest (mantissa : Nat) (exponent : Int) : Decimal :=
  let top := powerAbove mantissa exponent
  coarsestFrom mantissa exponent (top - min exponent 0).toNat top

end Number
end TeenyBasic
