/-!
# Blank characters

The characters that are dropped around a line typed at the console: the controls from tab to
carriage return, every space or line separator of Unicode, and the four information separators.
Settings are trimmed of the same characters except the last four.
-/

namespace TeenyBasic
namespace Text

/-- Spaces and line separators of Unicode, with the controls from tab to carriage return. -/
def isWhite (character : Char) : Bool :=
  let code := character.toNat
  (0x09 ≤ code && code ≤ 0x0d) || code = 0x20 || code = 0x85 || code = 0xa0 || code = 0x1680 ||
    (0x2000 ≤ code && code ≤ 0x200a) || code = 0x2028 || code = 0x2029 || code = 0x202f ||
    code = 0x205f || code = 0x3000

/-- Whether a character counts as blank around a typed line. -/
def isBlank (character : Char) : Bool :=
  isWhite character || (0x1c ≤ character.toNat && character.toNat ≤ 0x1f)

/-- The text without the characters of a kind at its two ends. -/
def trim (test : Char → Bool) (text : List Char) : List Char :=
  ((text.dropWhile test).reverse.dropWhile test).reverse

/-- The text without the blanks at its two ends. -/
def trimBlanks (text : List Char) : List Char :=
  trim isBlank text

end Text
end TeenyBasic
