/-!
# Doubles as exact numbers

A finite double is a sign, a whole mantissa and a power of two.  `parts` takes a double apart,
and `nearestBits` goes the other way: it gives the bits of the double nearest to a quotient of
two naturals, a tie going to the even mantissa and everything too large going to infinity.
-/

namespace TeenyBasic
namespace Number

/-- A double taken apart: a finite one is `mantissa * 2 ^ exponent` with its sign. -/
inductive Parts
  | notANumber
  | infinite (negative : Bool)
  | finite (negative : Bool) (mantissa : Nat) (exponent : Int)
  deriving DecidableEq, Repr

def leastExponent : Int := -1074

/-- The bits of positive infinity, above those of every finite positive double. -/
def infinityBits : Nat := 0x7ff * Nat.pow 2 52

/-- Takes a double apart. -/
def parts (value : Float) : Parts :=
  let bits : Nat := value.toBits.toNat
  let negative := decide (Nat.pow 2 63 ≤ bits)
  let biased : Nat := bits / Nat.pow 2 52 % Nat.pow 2 11
  let fraction : Nat := bits % Nat.pow 2 52
  if biased = 0x7ff then
    if fraction = 0 then .infinite negative else .notANumber
  else if biased = 0 then .finite negative fraction leastExponent
  else .finite negative (fraction + Nat.pow 2 52) ((biased : Int) - 1075)

/-- The whole number nearest to a quotient, a tie going to the even one. -/
def roundHalfEven (numerator denominator : Nat) : Nat :=
  let quotient := numerator / denominator
  let twice := 2 * (numerator % denominator)
  if twice < denominator then quotient
  else if denominator < twice then quotient + 1
  else if quotient % 2 = 0 then quotient
  else quotient + 1

/-- The greatest power of two that does not exceed a positive quotient. -/
def quotientLog2 (numerator denominator : Nat) : Int :=
  let guess : Int := numerator.log2 - denominator.log2
  if denominator * Nat.pow 2 guess.toNat ≤ numerator * Nat.pow 2 (-guess).toNat then guess
  else guess - 1

/-- The bits of the non-negative double nearest to a quotient.  A mantissa that rounds up to the
next power of two carries into the exponent, which is what adding it to the exponent field does. -/
def nearestBits (numerator denominator : Nat) : Nat :=
  if numerator = 0 then 0
  else
    let exponent := max leastExponent (quotientLog2 numerator denominator - 52)
    let mantissa := roundHalfEven (numerator * Nat.pow 2 (-exponent).toNat)
      (denominator * Nat.pow 2 exponent.toNat)
    min infinityBits ((exponent - leastExponent).toNat * Nat.pow 2 52 + mantissa)

def ofSignedBits (negative : Bool) (magnitude : Nat) : Float :=
  Float.ofBits (UInt64.ofNat (magnitude + if negative then Nat.pow 2 63 else 0))

end Number
end TeenyBasic
