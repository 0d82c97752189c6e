import TeenyBasic.Text.Printable

/-!
# Quoted text

How a piece of text is shown inside a message: between quotes, with everything that would not
show as itself escaped.  Single quotes are used unless the text holds a single quote and no
double quote, so that at most one kind of quote ever needs a backslash.
-/

namespace TeenyBasic
namespace Text

/-- The lowest `width` hexadecimal digits of a number. -/
def hexDigits (width number : Nat) : List Char :=
  (List.range width).reverse.map fun place => Nat.digitChar (number / Nat.pow 16 place % 16)

def quoteFor (text : List Char) : Char :=
  if text.contains '\x27' && !text.contains '"' then '"' else '\x27'

/-- A character as it stands between two quotes of the given kind. -/
def escaped (quote character : Char) : List Char :=
  if character = quote || character = '\\' then ['\\', character]
  else if character = '\n' then ['\\', 'n']
  else if character = '\r' then ['\\', 'r']
  else if character = '\t' then ['\\', 't']
  else if isPrintable character then [character]
  else if character.toNat < 0x100 then '\\' :: 'x' :: hexDigits 2 character.toNat
  else if character.toNat < 0x10000 then '\\' :: 'u' :: hexDigits 4 character.toNat
  else '\\' :: 'U' :: hexDigits 8 character.toNat

def quoted (text : String) : String :=
  let characters := text.toList
  let quote := quoteFor characters
  String.ofList (quote :: characters.flatMap (escaped quote) ++ [quote])

end Text
end TeenyBasic
