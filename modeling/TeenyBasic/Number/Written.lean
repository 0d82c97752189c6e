import TeenyBasic.Number.Entered

/-!
# Number text

How numbers are written: a decimal is laid out positionally while its leading digit stands
between two given places, and with an exponent otherwise.  A `Layout` holds these decisions.

`written` is the text that a program prints for a number.  Whole numbers show all their digits.
Any other number is first laid out with the fewest digits that read back, and `consoleText` then
rewrites an exponent that the console does not show.
-/

namespace TeenyBasic
namespace Number

/-- The decisions of a number format. -/
structure Layout where
  /-- The lowest exponent of the leading digit that is written positionally. -/
  leastPositional : Int
  /-- The lowest exponent of the leading digit above that which is not. -/
  firstScientific : Int
  /-- Whether a whole number is written with `.0`. -/
  wholeFraction : Bool
  /-- The least number of digits of an exponent. -/
  exponentWidth : Nat

def wholeDigits (number : Nat) : List Char :=
  Nat.toDigits 10 number

/-- A decimal written without an exponent. -/
def positional (layout : Layout) (decimal : Decimal) : List Char :=
  let digits := wholeDigits decimal.digits
  if 0 ≤ decimal.exponent then
    digits ++ List.replicate decimal.exponent.toNat '0' ++
      (if layout.wholeFraction then ['.', '0'] else [])
  else
    let places := (-decimal.exponent).toNat
    if places < digits.length then
      digits.take (digits.length - places) ++ '.' :: digits.drop (digits.length - places)
    else
      '0' :: '.' :: List.replicate (places - digits.length) '0' ++ digits

/-- The exponent part of a number, always with a sign. -/
def exponentPart (layout : Layout) (exponent : Int) : List Char :=
  let digits := wholeDigits exponent.natAbs
  'e' :: (if exponent < 0 then '-' else '+') ::
    List.replicate (layout.exponentWidth - digits.length) '0' ++ digits

def leadingExponent (decimal : Decimal) : Int :=
  decimal.exponent + digitCount decimal.digits - 1

/-- The digits of a decimal with a point behind the first, if there are more. -/
def mantissaText (decimal : Decimal) : List Char :=
  match wholeDigits decimal.digits with
  | first :: second :: rest => first :: '.' :: second :: rest
  | digits => digits

/-- A decimal written with one digit before the point and an exponent. -/
def scientific (layout : Layout) (decimal : Decimal) : List Char :=
  mantissaText decimal ++ exponentPart layout (leadingExponent decimal)

def layOut (layout : Layout) (decimal : Decimal) : List Char :=
  let exponent := leadingExponent decimal
  if layout.leastPositional ≤ exponent && exponent < layout.firstScientific then
    positional layout decimal
  else scientific layout decimal

def signText (negative : Bool) : List Char :=
  if negative then ['-'] else []

/-- The whole number `mantissa * 2 ^ exponent`, if it is one. -/
def whole? (mantissa : Nat) (exponent : Int) : Option Nat :=
  if 0 ≤ exponent then some (mantissa * Nat.pow 2 exponent.toNat)
  else
    let divisor := Nat.pow 2 (-exponent).toNat
    if mantissa % divisor = 0 then some (mantissa / divisor) else none

/-- The fewest digits that read back stand positionally from 10^-4 up to 10^16, with `.0` behind a
whole number, and an exponent has at least two digits. -/
def shortestLayout : Layout where
  leastPositional := -4
  firstScientific := 16
  wholeFraction := true
  exponentWidth := 2

/-- Numbers on the console are positional from a millionth up to 10^21, without a trailing point,
and an exponent has no leading zeros. -/
def consoleLayout : Layout where
  leastPositional := -6
  firstScientific := 21
  wholeFraction := false
  exponentWidth := 1

/-- The text of a number with the fewest digits, made fit for the console.  Without an exponent it
stays.  With one it is written out between a millionth and 10^21, and beyond that it keeps its
digits while the exponent loses its leading zeros. -/
def consoleText (text : List Char) : List Char :=
  if text.contains 'e' then
    let mantissa := text.takeWhile (· ≠ 'e')
    match exponentValue? (text.dropWhile (· ≠ 'e')), decimal? text with
    | some exponent, some decimal =>
        if consoleLayout.leastPositional ≤ exponent && exponent < consoleLayout.firstScientific then
          positional consoleLayout decimal
        else mantissa ++ exponentPart consoleLayout exponent
    | _, _ => text
  else text

/-- The magnitude of a finite number on the console: all digits of a whole number below 10^21,
and the fewest digits that read back otherwise. -/
def magnitudeText (mantissa : Nat) (exponent : Int) : List Char :=
  let shortestText := consoleText (layOut shortestLayout (shortest mantissa exponent))
  match whole? mantissa exponent with
  | some number => if number < Nat.pow 10 21 then wholeDigits number else shortestText
  | none => shortestText

/-- The text that a program prints for a number. -/
def written (value : Float) : String :=
  match parts value with
  | .notANumber => "NaN"
  | .infinite negative => String.ofList (signText negative ++ "Infinity".toList)
  | .finite negative mantissa exponent =>
      String.ofList (signText negative ++ magnitudeText mantissa exponent)

end Number
end TeenyBasic
