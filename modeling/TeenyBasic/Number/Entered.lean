import TeenyBasic.Number.Decimal
import TeenyBasic.Text.Blank
import TeenyBasic.Text.DecimalDigit

/-!
# Numbers typed at the console

A typed line is trimmed and read as a decimal number with an optional sign, fraction and
exponent, or as one of the words for infinity.  Digits of every script count, and a single
underscore may stand between two digits.  Whatever is no number reads as zero.
-/

namespace TeenyBasic
namespace Number

/-- Whether a character is one of the ten ASCII digits. -/
def isDigit (character : Char) : Bool :=
  '0' ≤ character && character ≤ '9'

/-- The number that a run of ASCII digits denotes. -/
def digitsValue (digits : List Char) : Nat :=
  digits.foldl (fun number digit => number * 10 + (digit.toNat - '0'.toNat)) 0

/-- The ASCII digit that stands for a decimal digit of any script; other characters stay. -/
def plainDigit (character : Char) : Char :=
  match Text.digitValue? character with
  | some value => Nat.digitChar value
  | none => character

/-- Drops the underscores of a number, given the character before; fails unless each of them
stands between two digits. -/
def dropUnderscores (before : Char) : List Char → Option (List Char)
  | [] => if before = '_' then none else some []
  | character :: rest =>
      if character = '_' then
        if isDigit before then dropUnderscores '_' rest else none
      else if before = '_' && !isDigit character then none
      else (dropUnderscores character rest).map (character :: ·)

/-- Splits a sign off, telling whether it is a minus. -/
def splitSign : List Char → Bool × List Char
  | '-' :: rest => (true, rest)
  | '+' :: rest => (false, rest)
  | text => (false, text)

/-- Reads what may follow the digits of a number: nothing, or an exponent. -/
def exponentValue? : List Char → Option Int
  | [] => some 0
  | mark :: rest =>
      if mark = 'e' || mark = 'E' then
        let (negative, digits) := splitSign rest
        if digits.isEmpty || !digits.all isDigit then none
        else some (if negative then -digitsValue digits else digitsValue digits)
      else none

/-- Reads an unsigned decimal with digits before or after the point, or both. -/
def decimal? (text : List Char) : Option Decimal :=
  let wholePart := text.takeWhile isDigit
  let (fraction, rest) :=
    match text.dropWhile isDigit with
    | '.' :: rest => (rest.takeWhile isDigit, rest.dropWhile isDigit)
    | rest => ([], rest)
  if wholePart.isEmpty && fraction.isEmpty then none
  else
    (exponentValue? rest).map fun exponent =>
      ⟨digitsValue (wholePart ++ fraction), exponent - fraction.length⟩

/-- The words that are read as infinity, in small letters. -/
def infinityWords : List (List Char) :=
  ["inf".toList, "infinity".toList]

/-- Reads a trimmed line; a line that says it is no number has no value. -/
def numeral? (text : List Char) : Option Float := do
  let plain ← dropUnderscores ' ' (text.map plainDigit)
  let (negative, body) := splitSign plain
  if infinityWords.contains (body.map Char.toLower) then
    return ofSignedBits negative infinityBits
  else
    return (← decimal? body).toFloat negative

/-- The number that a typed line stands for. -/
def entered (line : List Char) : Float :=
  (numeral? (Text.trimBlanks line)).getD 0

end Number
end TeenyBasic
