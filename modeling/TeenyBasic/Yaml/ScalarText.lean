import TeenyBasic.Yaml.Source

/-!
# The text of YAML scalars

Scalars are written plainly, between quotes, or as indented blocks.  Each reader in this module
starts at the first character of a scalar and gives its text and the place behind it.  A line end
inside a plain or quoted scalar counts as one space, unless empty lines follow, which count as
line feeds.
-/

namespace TeenyBasic
namespace Yaml

/-- Gathers line ends and the spaces that `skip` passes before and between them. -/
def breaksFrom (skip : Source → Source) : Nat → Source → List Char × Source
  | 0, source => ([], source)
  | fuel + 1, source =>
      let source := skip source
      match source.takeBreak with
      | ([], _) => ([], source)
      | (lineEnd, after) =>
          let (more, last) := breaksFrom skip fuel after
          (lineEnd ++ more, last)

/-- The text for one line end followed by further ones. -/
def folded (lineEnd breaks : List Char) : List Char :=
  if lineEnd ≠ ['\n'] then lineEnd ++ breaks
  else if breaks.isEmpty then [' ']
  else breaks

/-- Whether a plain scalar stops before a character, given what follows it. -/
def stopsPlain (inFlow : Bool) (character : Char) (next : Option Char) : Bool :=
  endsPiece (some character) ||
    (character = ':' && (endsPiece next ||
      (inFlow && next.any fun following =>
        following = ',' || following = '[' || following = ']' || following = '\x7b' ||
          following = '\x7d'))) ||
    (inFlow && (character = ',' || character = '?' || character = '[' || character = ']' ||
      character = '\x7b' || character = '\x7d'))

/-- How many characters a plain scalar takes before it stops or a blank comes. -/
def plainLength (inFlow : Bool) : List Char → Nat
  | [] => 0
  | character :: rest =>
      if stopsPlain inFlow character rest.head? then 0 else plainLength inFlow rest + 1

/-- Blanks behind a part of a plain scalar: the text they stand for, whether a line ended among
them, and the place behind them. -/
structure Gap where
  text : List Char
  crossedLine : Bool
  after : Source

/-- Gathers the line ends of a gap; a document marker ends the scalar and leaves no text. -/
def gapBreaks : Nat → Source → Option (List Char) × Source
  | 0, source => (some [], source)
  | fuel + 1, source =>
      if source.atDocumentMarker then (none, source)
      else
        let source := source.skipSpaces
        match source.takeBreak with
        | ([], _) => (some [], source)
        | (lineEnd, after) =>
            let (more, last) := gapBreaks fuel after
            (more.map (lineEnd ++ ·), last)

/-- Reads the blanks behind a part of a plain scalar. -/
def plainGap (source : Source) : Gap :=
  let spaces := source.rest.takeWhile (· = ' ')
  let source := source.advanceBy spaces.length
  match source.takeBreak with
  | ([], _) => ⟨spaces, false, source⟩
  | (lineEnd, after) =>
      let (breaks, last) := gapBreaks (after.rest.length + 1) after
      ⟨(breaks.map (folded lineEnd)).getD [], true, last⟩

/-- Reads the parts of a plain scalar with the gaps between them.  Also tells whether a line ended
behind the last part. -/
def plainParts (inFlow : Bool) (indent : Int) :
    Nat → Source → List Char × Bool × Source
  | 0, source => ([], false, source)
  | fuel + 1, source =>
      let count := plainLength inFlow source.rest
      let part := source.rest.take count
      let gap := plainGap (source.advanceBy count)
      if gap.text.isEmpty || gap.after.peek = some '#' ||
          (!inFlow && (gap.after.column : Int) < indent) ||
          plainLength inFlow gap.after.rest = 0 then
        (part, gap.crossedLine, gap.after)
      else
        let (more, crossedLine, last) := plainParts inFlow indent fuel gap.after
        (part ++ gap.text ++ more, crossedLine, last)

/-- Reads a plain scalar whose further lines are indented at least by `indent`. -/
def plainScalar (inFlow : Bool) (indent : Int) (source : Source) : List Char × Bool × Source :=
  plainParts inFlow indent (source.rest.length + 1) source

/-- What a letter behind a backslash stands for. -/
def escapeText? : Char → Option (List Char)
  | '0' => some ['\x00']
  | 'a' => some ['\x07']
  | 'b' => some ['\x08']
  | 't' => some ['\t']
  | '\t' => some ['\t']
  | 'n' => some ['\n']
  | 'v' => some ['\x0b']
  | 'f' => some ['\x0c']
  | 'r' => some ['\r']
  | 'e' => some ['\x1b']
  | ' ' => some [' ']
  | '"' => some ['"']
  | '\\' => some ['\\']
  | '/' => some ['/']
  | 'N' => some ['\x85']
  | '_' => some ['\xa0']
  | 'L' => some ['\u2028']
  | 'P' => some ['\u2029']
  | _ => none

/-- How many hexadecimal digits follow a letter behind a backslash. -/
def escapeWidth? : Char → Option Nat
  | 'x' => some 2
  | 'u' => some 4
  | 'U' => some 8
  | _ => none

def hexValue? (character : Char) : Option Nat :=
  if '0' ≤ character && character ≤ '9' then some (character.toNat - '0'.toNat)
  else if 'a' ≤ character && character ≤ 'f' then some (character.toNat - 'a'.toNat + 10)
  else if 'A' ≤ character && character ≤ 'F' then some (character.toNat - 'A'.toNat + 10)
  else none

/-- The number that hexadecimal digits denote. -/
def hexNumber? (digits : List Char) : Option Nat :=
  digits.foldlM (fun number digit => (hexValue? digit).map (number * 16 + ·)) 0

/-- The character that hexadecimal digits name.  Surrogates are no characters and are refused. -/
def hexCharacter (width : Nat) (rest : List Char) : Except Fault Char :=
  let digits := rest.take width
  if digits.length < width then .error .malformed
  else
    match hexNumber? digits with
    | none => .error .malformed
    | some code =>
        if 0x110000 ≤ code then .error .codeTooLarge
        else if 0xd800 ≤ code && code < 0xe000 then .error .malformed
        else .ok (Char.ofNat code)

/-- Gathers empty lines inside a quoted scalar, which may not hold a document marker. -/
def quotedBreaks : Nat → Source → Except Fault (List Char × Source)
  | 0, source => .ok ([], source)
  | fuel + 1, source =>
      if source.atDocumentMarker then .error .malformed
      else
        let source := source.skipWhile isSpaceOrTab
        match source.takeBreak with
        | ([], _) => .ok ([], source)
        | (lineEnd, after) =>
            match quotedBreaks fuel after with
            | .ok (more, last) => .ok (lineEnd ++ more, last)
            | .error fault => .error fault

/-- Reads an escape, after its backslash. -/
def escapeAt (source : Source) : Except Fault (List Char × Source) :=
  match source.rest with
  | [] => .error .malformed
  | letter :: rest =>
      match escapeText? letter, escapeWidth? letter with
      | some text, _ => .ok (text, source.advance)
      | none, some width =>
          match hexCharacter width rest with
          | .ok character => .ok ([character], source.advanceBy (width + 1))
          | .error fault => .error fault
      | none, none =>
          if isBreak letter then quotedBreaks source.rest.length source.takeBreak.2
          else .error .malformed

/-- Reads blanks inside a quoted scalar. -/
def quotedGap (source : Source) : Except Fault (List Char × Source) :=
  let spaces := source.rest.takeWhile isSpaceOrTab
  let source := source.advanceBy spaces.length
  match source.peek, source.takeBreak with
  | none, _ => .error .malformed
  | some _, ([], _) => .ok (spaces, source)
  | some _, (lineEnd, after) =>
      match quotedBreaks (after.rest.length + 1) after with
      | .ok (breaks, last) => .ok (folded lineEnd breaks, last)
      | .error fault => .error fault

/-- Reads a quoted scalar after its opening quote; `double` tells which quote that was. -/
def quotedParts (double : Bool) : Nat → Source → Except Fault (List Char × Source)
  | 0, _ => .error .malformed
  | fuel + 1, source =>
      let continueWith (text : List Char) (source : Source) : Except Fault (List Char × Source) :=
        match quotedParts double fuel source with
        | .ok (more, last) => .ok (text ++ more, last)
        | .error fault => .error fault
      match source.rest with
      | [] => .error .malformed
      | character :: rest =>
          if endsPiece (some character) then
            match quotedGap source with
            | .ok (text, after) => continueWith text after
            | .error fault => .error fault
          else if character = '"' && double then .ok ([], source.advance)
          else if character = '\x27' && !double then
            if rest.head? = some '\x27' then continueWith ['\x27'] (source.advanceBy 2)
            else .ok ([], source.advance)
          else if character = '\\' && double then
            match escapeAt source.advance with
            | .ok (text, after) => continueWith text after
            | .error fault => .error fault
          else continueWith [character] source.advance

def quotedScalar (double : Bool) (source : Source) : Except Fault (List Char × Source) :=
  quotedParts double (source.rest.length + 1) source.advance

/-- What becomes of the line ends behind a block scalar. -/
inductive Chomping
  | strip
  | clip
  | keep
  deriving DecidableEq, Repr

/-- Reads a sign that chooses the chomping. -/
def chompingAt? (source : Source) : Option Chomping :=
  match source.peek with
  | some '+' => some .keep
  | some '-' => some .strip
  | _ => none

/-- Reads a digit that gives the indentation. -/
def incrementAt? (source : Source) : Option Nat :=
  match source.peek with
  | some character =>
      if '0' ≤ character && character ≤ '9' then some (character.toNat - '0'.toNat) else none
  | none => none

/-- Reads the signs behind the character that begins a block scalar, in either order. -/
def blockIndicators (source : Source) : Except Fault (Chomping × Option Nat × Source) :=
  let finish (chomping : Chomping) (increment : Option Nat) (source : Source) :
      Except Fault (Chomping × Option Nat × Source) :=
    if increment = some 0 || !endsWord source.peek then .error .malformed
    else .ok (chomping, increment, source)
  match chompingAt? source, incrementAt? source with
  | some chomping, _ =>
      match incrementAt? source.advance with
      | some increment => finish chomping (some increment) (source.advanceBy 2)
      | none => finish chomping none source.advance
  | none, some increment =>
      match chompingAt? source.advance with
      | some chomping => finish chomping (some increment) (source.advanceBy 2)
      | none => finish .clip (some increment) source.advance
  | none, none => finish .clip none source

/-- Gathers leading empty lines and the deepest indentation seen among them. -/
def blockIndentation : Nat → Nat → Source → List Char × Nat × Source
  | 0, deepest, source => ([], deepest, source)
  | fuel + 1, deepest, source =>
      let source := source.skipSpaces
      let deepest := max deepest source.column
      match source.takeBreak with
      | ([], _) => ([], deepest, source)
      | (lineEnd, after) =>
          let (more, deepest, last) := blockIndentation fuel deepest after
          (lineEnd ++ more, deepest, last)

/-- Passes spaces up to a column. -/
def skipIndent (indent : Nat) (source : Source) : Source :=
  let spaces := (source.rest.takeWhile (· = ' ')).length
  source.advanceBy (min spaces (indent - source.column))

/-- Reads the lines of a block scalar, given the empty lines in front.  Gives its text without the
last line end, that line end, the empty lines behind it, and the place behind all. -/
def blockLines (folds : Bool) (indent : Nat) :
    Nat → List Char → Source → List Char × List Char × List Char × Source
  | 0, breaks, source => ([], [], breaks, source)
  | fuel + 1, breaks, source =>
      if source.column = indent && source.peek.isSome then
        let startsBlank := source.peek.any isSpaceOrTab
        let content := source.rest.takeWhile fun character => !isBreak character
        let (lineEnd, after) := (source.advanceBy content.length).takeBreak
        let (following, next) := breaksFrom (skipIndent indent) (after.rest.length + 1) after
        if next.column = indent && next.peek.isSome then
          let joint :=
            if folds && lineEnd = ['\n'] && !startsBlank && !next.peek.any isSpaceOrTab then
              if following.isEmpty then [' '] else []
            else lineEnd
          let (more, lastEnd, trailing, last) := blockLines folds indent fuel following next
          (breaks ++ content ++ joint ++ more, lastEnd, trailing, last)
        else (breaks ++ content, lineEnd, following, next)
      else ([], [], breaks, source)

/-- Reads a block scalar inside a collection indented by `parent`. -/
def blockScalar (folds : Bool) (parent : Int) (source : Source) :
    Except Fault (List Char × Source) :=
  match blockIndicators source.advance with
  | .error fault => .error fault
  | .ok (chomping, increment, source) =>
      match source.finishLine with
      | .error fault => .error fault
      | .ok source =>
          let fuel := source.rest.length + 1
          let least := (max 1 (parent + 1)).toNat
          let (breaks, indent, source) :=
            match increment with
            | none =>
                let (breaks, deepest, after) := blockIndentation fuel 0 source
                (breaks, max least deepest, after)
            | some increment =>
                let indent := least + increment - 1
                let (breaks, after) := breaksFrom (skipIndent indent) fuel source
                (breaks, indent, after)
          let (text, lineEnd, trailing, last) := blockLines folds indent fuel breaks source
          match chomping with
          | .strip => .ok (text, last)
          | .clip => .ok (text ++ lineEnd, last)
          | .keep => .ok (text ++ lineEnd ++ trailing, last)

end Yaml
end TeenyBasic
