/-!
# Lines of text

Text files may end a line by a line feed, a carriage return, or both together.
`unifyLineEnds` leaves only line feeds; `firstLine` and `afterFirstLine` split such a text where
its first line ends.
-/

namespace TeenyBasic
namespace Text

def unifyLineEnds : List Char → List Char
  | [] => []
  | '\r' :: '\n' :: rest => '\n' :: unifyLineEnds rest
  | '\r' :: rest => '\n' :: unifyLineEnds rest
  | character :: rest => character :: unifyLineEnds rest

/-- The first line of a text, without its line feed. -/
def firstLine (text : List Char) : List Char :=
  text.takeWhile (· ≠ '\n')

/-- What follows the first line of a text and its line feed. -/
def afterFirstLine (text : List Char) : List Char :=
  (text.dropWhile (· ≠ '\n')).drop 1

end Text
end TeenyBasic
