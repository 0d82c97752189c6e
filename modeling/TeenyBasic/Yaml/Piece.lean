import TeenyBasic.Yaml.ScalarText
import TeenyBasic.Text.Utf8

/-!
# The pieces of a YAML text

Between characters and values a text is a row of pieces: scalars, names, and the marks that say
how scalars hang together.  Some marks are written, such as a comma; others are implied by
indentation, such as the end of a block.  This module has the type and the readers of the pieces
that begin with a character of their own: names, tags and directives.
-/

namespace TeenyBasic
namespace Yaml

inductive Piece
  | versionDirective (major : Nat)
  | tagDirective (handle expansion : String)
  | otherDirective
  | documentStart
  | documentEnd
  | textEnd
  | sequenceStart
  | mappingStart
  | blockEnd
  | flowSequenceStart
  | flowSequenceEnd
  | flowMappingStart
  | flowMappingEnd
  | entry
  | comma
  | key
  | value
  | alias (name : String)
  | anchor (name : String)
  | tag (handle : Option String) (suffix : String)
  | scalar (text : String) (plain : Bool)
  deriving DecidableEq, Repr

def isNameCharacter (character : Char) : Bool :=
  ('0' ≤ character && character ≤ '9') || ('A' ≤ character && character ≤ 'Z') ||
    ('a' ≤ character && character ≤ 'z') || character = '-' || character = '_'

def isTagCharacter (character : Char) : Bool :=
  isNameCharacter character || ";/?:@&=+$,.!~*\x27()[]".toList.contains character

/-- Reads a name, which must not be empty. -/
def nameAt (source : Source) : Except Fault (String × Source) :=
  let name := source.rest.takeWhile isNameCharacter
  if name.isEmpty then .error .malformed
  else .ok (String.ofList name, source.advanceBy name.length)

/-- Reads the name of an anchor or an alias, after the character that announces it. -/
def anchorName (source : Source) : Except Fault (String × Source) := do
  let (name, after) ← nameAt source.advance
  let fits := endsPiece after.peek ||
    after.peek.any fun character => "?:,]\x7d%@\x60".toList.contains character
  if fits then .ok (name, after) else .error .malformed

/-- Reads bytes written as percent signs with two hexadecimal digits each. -/
def escapedBytes : List Char → Except Fault (List UInt8 × List Char)
  | '%' :: high :: low :: rest =>
      match hexValue? high, hexValue? low with
      | some high, some low => do
          let (more, rest) ← escapedBytes rest
          .ok (UInt8.ofNat (high * 16 + low) :: more, rest)
      | _, _ => .error .malformed
  | '%' :: _ => .error .malformed
  | rest => .ok ([], rest)

/-- Reads the characters of a tag, escaped bytes included, from a text of at most the given
length. -/
def tagCharacters : Nat → List Char → Except Fault (List Char × List Char)
  | 0, rest => .ok ([], rest)
  | fuel + 1, rest =>
      match rest with
      | '%' :: _ => do
          let (bytes, after) ← escapedBytes rest
          match Text.Utf8.decode bytes with
          | .error _ => .error .malformed
          | .ok text =>
              let (more, last) ← tagCharacters fuel after
              .ok (text.toList ++ more, last)
      | character :: after =>
          if isTagCharacter character then do
            let (more, last) ← tagCharacters fuel after
            .ok (character :: more, last)
          else .ok ([], rest)
      | [] => .ok ([], [])

/-- Reads the characters of a tag, of which there must be some. -/
def tagText (source : Source) : Except Fault (String × Source) := do
  let (text, rest) ← tagCharacters (source.rest.length + 1) source.rest
  let count := source.rest.length - rest.length
  if count = 0 then .error .malformed
  else .ok (String.ofList text, source.advanceBy count)

/-- Reads a tag handle: an exclamation mark alone before a space, or two with a name between. -/
def tagHandle (source : Source) : Except Fault (String × Source) :=
  match source.rest with
  | '!' :: ' ' :: _ => .ok ("!", source.advance)
  | '!' :: rest =>
      let name := rest.takeWhile isNameCharacter
      if (rest.drop name.length).head? = some '!' then
        .ok (String.ofList ('!' :: name ++ ['!']), source.advanceBy (name.length + 2))
      else .error .malformed
  | _ => .error .malformed

/-- Reads a tag in front of a node. -/
def tagAt (source : Source) : Except Fault (Piece × Source) := do
  let next := (source.rest.drop 1).head?
  let (piece, after) ←
    if next = some '<' then do
      let (suffix, after) ← tagText (source.advanceBy 2)
      if after.peek = some '>' then .ok (Piece.tag none suffix, after.advance)
      else .error .malformed
    else if endsPiece next then .ok (Piece.tag none "!", source.advance)
    else
      let word := (source.rest.drop 1).takeWhile fun character => !endsWord (some character)
      if word.contains '!' then do
        let (handle, after) ← tagHandle source
        let (suffix, after) ← tagText after
        .ok (Piece.tag (some handle) suffix, after)
      else do
        let (suffix, after) ← tagText source.advance
        .ok (Piece.tag (some "!") suffix, after)
  if endsWord after.peek then .ok (piece, after) else .error .malformed

/-- Reads a whole number, which must not be empty. -/
def versionNumber (source : Source) : Except Fault (Nat × Source) :=
  let digits := source.rest.takeWhile fun character => '0' ≤ character && character ≤ '9'
  if digits.isEmpty then .error .malformed
  else
    .ok (digits.foldl (fun number digit => number * 10 + (digit.toNat - '0'.toNat)) 0,
      source.advanceBy digits.length)

/-- Reads the version that a text declares. -/
def versionAt (source : Source) : Except Fault (Piece × Source) := do
  let (major, after) ← versionNumber source.skipSpaces
  if after.peek ≠ some '.' then .error .malformed
  else
    let (_, last) ← versionNumber after.advance
    if endsWord last.peek then .ok (.versionDirective major, last) else .error .malformed

/-- Reads what a tag handle is declared to stand for. -/
def tagDeclaration (source : Source) : Except Fault (Piece × Source) := do
  let (handle, after) ← tagHandle source.skipSpaces
  if after.peek ≠ some ' ' then .error .malformed
  else
    let (expansion, last) ← tagText after.skipSpaces
    if endsWord last.peek then .ok (.tagDirective handle expansion, last) else .error .malformed

/-- Reads a directive with the rest of its line. -/
def directiveAt (source : Source) : Except Fault (Piece × Source) := do
  let (name, after) ← nameAt source.advance
  if !endsWord after.peek then .error .malformed
  else
    let (piece, after) ←
      match name with
      | "YAML" => versionAt after
      | "TAG" => tagDeclaration after
      | _ => .ok (.otherDirective, after.skipWhile fun character => !isBreak character)
    let last ← after.finishLine
    .ok (piece, last)

end Yaml
end TeenyBasic
