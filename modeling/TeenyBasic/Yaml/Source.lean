import TeenyBasic.Yaml.Fault

/-!
# Reading positions in a YAML text

A `Source` is what remains of a text together with the place reached: how many characters were
passed, the line and the column.  Columns matter because indentation does, lines because a key
and its colon stand on one line.

Next characters are optional, `none` standing for the end of the text, and the predicates on them
treat the end like a line end where the format does.
-/

namespace TeenyBasic
namespace Yaml

/-- What remains of a text, and the place reached. -/
structure Source where
  rest : List Char
  index : Nat
  line : Nat
  column : Nat

def isBreak (character : Char) : Bool :=
  character = '\r' || character = '\n' || character = '\x85' || character = '\u2028' ||
    character = '\u2029'

def isSpaceOrTab (character : Char) : Bool :=
  character = ' ' || character = '\t'

def endsLine : Option Char → Bool
  | none => true
  | some character => isBreak character

/-- The end of the text, of a line, or a space. -/
def endsWord : Option Char → Bool
  | none => true
  | some character => isBreak character || character = ' '

/-- The end of the text, of a line, a space or a tab. -/
def endsPiece : Option Char → Bool
  | none => true
  | some character => isBreak character || isSpaceOrTab character

namespace Source

def start (text : List Char) : Source :=
  ⟨text, 0, 0, 0⟩

def peek (source : Source) : Option Char :=
  source.rest.head?

/-- Passes one character.  A carriage return before a line feed does not end the line yet, and a
byte order mark takes no column. -/
def advance (source : Source) : Source :=
  match source.rest with
  | [] => source
  | character :: rest =>
      if isBreak character && !(character = '\r' && rest.head? = some '\n') then
        ⟨rest, source.index + 1, source.line + 1, 0⟩
      else if character = '\ufeff' then
        ⟨rest, source.index + 1, source.line, source.column⟩
      else ⟨rest, source.index + 1, source.line, source.column + 1⟩

/-- Passes several characters. -/
def advanceBy : Nat → Source → Source
  | 0, source => source
  | count + 1, source => advanceBy count source.advance

/-- Passes all characters of a kind. -/
def skipWhile (source : Source) (test : Char → Bool) : Source :=
  source.advanceBy (source.rest.takeWhile test).length

def skipSpaces (source : Source) : Source :=
  source.skipWhile (· = ' ')

/-- Passes a comment, if one begins here. -/
def skipComment (source : Source) : Source :=
  if source.peek = some '#' then source.skipWhile fun character => !isBreak character else source

/-- Passes a line end, if there is one, and tells how it counts: a line or paragraph separator as
itself, any other as a line feed. -/
def takeBreak (source : Source) : List Char × Source :=
  match source.rest with
  | '\r' :: '\n' :: _ => (['\n'], source.advanceBy 2)
  | character :: _ =>
      if character = '\u2028' || character = '\u2029' then ([character], source.advance)
      else if isBreak character then (['\n'], source.advance)
      else ([], source)
  | [] => ([], source)

/-- Whether three dashes or three dots stand here by themselves. -/
def atMarker (source : Source) (mark : Char) : Bool :=
  source.rest.take 3 = [mark, mark, mark] && endsPiece (source.rest.drop 3).head?

/-- Whether a document begins or ends here. -/
def atDocumentMarker (source : Source) : Bool :=
  source.atMarker '-' || source.atMarker '.'

/-- Passes the rest of a line that may hold nothing but a comment. -/
def finishLine (source : Source) : Except Fault Source :=
  let source := source.skipSpaces.skipComment
  if endsLine source.peek then .ok source.takeBreak.2 else .error .malformed

end Source

end Yaml
end TeenyBasic
