import TeenyBasic.Yaml.Piece

/-!
# From characters to pieces

Pieces are read from left to right.  Two things are known only later than they are needed: a
scalar turns out to be a key when a colon follows on the same line, and a block turns out to end
when a line is indented less.  A place where a key could begin therefore gets an empty slot among
the pieces, which the colon fills; and the indentations of open blocks are kept, so that each line
can close those it does not reach.
-/

namespace TeenyBasic
namespace Yaml

/-- A place where a key may have begun. -/
structure Candidate where
  /-- The slot for the marks of the key. -/
  slot : Nat
  /-- Whether nothing but a key can stand there. -/
  required : Bool
  index : Nat
  line : Nat
  column : Nat

/-- The state of reading pieces. -/
structure Outline where
  source : Source
  slots : Array (List Piece)
  /-- How many brackets are open. -/
  depth : Nat
  /-- The indentation of the innermost open block. -/
  indent : Int
  /-- The indentations around it. -/
  outer : List Int
  /-- Whether a key may begin at the next piece. -/
  keyAllowed : Bool
  /-- The last candidate at each depth. -/
  candidates : List (Nat × Candidate)

namespace Outline

def start (text : List Char) : Outline where
  source := .start text
  slots := #[]
  depth := 0
  indent := -1
  outer := []
  keyAllowed := true
  candidates := []

def inBlock (outline : Outline) : Bool :=
  outline.depth = 0

def push (outline : Outline) (piece : Piece) : Outline :=
  { outline with slots := outline.slots.push [piece] }

/-- Adds a piece that ends at the given place. -/
def pushAt (outline : Outline) (piece : Piece) (after : Source) : Outline :=
  { outline.push piece with source := after }

/-- Passes blanks, comments and line ends.  Behind a line end a key may begin. -/
def skipBlanks : Nat → Outline → Outline
  | 0, outline => outline
  | fuel + 1, outline =>
      let source := outline.source.skipSpaces.skipComment
      match source.takeBreak with
      | ([], _) => { outline with source := source }
      | (_, after) =>
          skipBlanks fuel
            { outline with source := after, keyAllowed := outline.keyAllowed || outline.inBlock }

/-- Forgets the candidates that stand on an earlier line or too far back. -/
def dropStale (outline : Outline) : Except Fault Outline :=
  let source := outline.source
  let isStale (candidate : Candidate) : Bool :=
    candidate.line ≠ source.line || 1024 < source.index - candidate.index
  if outline.candidates.any fun entry => isStale entry.2 && entry.2.required then
    .error .malformed
  else
    .ok { outline with
      candidates := outline.candidates.filter fun entry => !isStale entry.2 }

/-- Forgets the candidate at the present depth. -/
def dropCandidate (outline : Outline) : Except Fault Outline :=
  let here (entry : Nat × Candidate) : Bool := entry.1 = outline.depth
  if outline.candidates.any fun entry => here entry && entry.2.required then .error .malformed
  else .ok { outline with candidates := outline.candidates.filter fun entry => !here entry }

/-- Notes that a key may begin here. -/
def noteCandidate (outline : Outline) : Except Fault Outline := do
  if !outline.keyAllowed then .ok outline
  else
    let source := outline.source
    let outline ← outline.dropCandidate
    let candidate : Candidate :=
      { slot := outline.slots.size
        required := outline.inBlock && outline.indent = source.column
        index := source.index
        line := source.line
        column := source.column }
    .ok { outline with
      slots := outline.slots.push []
      candidates := (outline.depth, candidate) :: outline.candidates }

/-- Closes the blocks that are indented more than a column, given the indentations around the
innermost. -/
def closeBlocks (column : Int) : List Int → Outline → Outline
  | [], outline => outline
  | next :: outer, outline =>
      if column < outline.indent then
        closeBlocks column outer
          { outline.push .blockEnd with indent := next, outer := outer }
      else outline

/-- Closes the blocks that are indented more than a column, unless brackets are open. -/
def unwind (outline : Outline) (column : Int) : Outline :=
  if outline.inBlock then closeBlocks column outline.outer outline else outline

/-- Opens a block at a column if it is indented more than the innermost, and tells whether it
did. -/
def openBlock (outline : Outline) (column : Nat) : Bool × Outline :=
  if outline.indent < column then
    (true, { outline with indent := column, outer := outline.indent :: outline.outer })
  else (false, outline)

/-- Opens a block at the present column, with the piece that begins it. -/
def openBlockHere (outline : Outline) (piece : Piece) : Outline :=
  match outline.openBlock outline.source.column with
  | (true, outline) => outline.push piece
  | (false, outline) => outline

/-- Ends the text, or begins or ends a document: all blocks are closed and no key may follow. -/
def closeAll (outline : Outline) : Except Fault Outline := do
  let outline ← (outline.unwind (-1)).dropCandidate
  .ok { outline with keyAllowed := false }

/-- Reads a mark that begins or ends a document. -/
def documentMark (outline : Outline) (piece : Piece) : Except Fault Outline := do
  let outline ← outline.closeAll
  .ok (outline.pushAt piece (outline.source.advanceBy 3))

def openBracket (outline : Outline) (piece : Piece) : Except Fault Outline := do
  let outline ← outline.noteCandidate
  .ok { outline.pushAt piece outline.source.advance with
    depth := outline.depth + 1, keyAllowed := true }

/-- Reads a closing bracket, which needs an open one. -/
def closeBracket (outline : Outline) (piece : Piece) : Except Fault Outline := do
  let outline ← outline.dropCandidate
  if outline.depth = 0 then .error .malformed
  else
    .ok { outline.pushAt piece outline.source.advance with
      depth := outline.depth - 1, keyAllowed := false }

def comma (outline : Outline) : Except Fault Outline := do
  let outline ← outline.dropCandidate
  .ok { outline.pushAt .comma outline.source.advance with keyAllowed := true }

/-- Reads a mark that begins a line of a block: a dash or a question mark. -/
def blockMark (outline : Outline) (opening piece : Piece) : Except Fault Outline := do
  if outline.inBlock && !outline.keyAllowed then .error .malformed
  else
    let opened := if outline.inBlock then outline.openBlockHere opening else outline
    let outline ← opened.dropCandidate
    .ok (outline.pushAt piece outline.source.advance)

def dash (outline : Outline) : Except Fault Outline := do
  let outline ← outline.blockMark .sequenceStart .entry
  .ok { outline with keyAllowed := true }

def questionMark (outline : Outline) : Except Fault Outline := do
  let outline ← outline.blockMark .mappingStart .key
  .ok { outline with keyAllowed := outline.inBlock }

/-- Reads a colon.  If a candidate waits at this depth, it becomes the key. -/
def colon (outline : Outline) : Except Fault Outline :=
  match outline.candidates.lookup outline.depth with
  | some candidate =>
      let (opened, outline) :=
        if outline.inBlock then outline.openBlock candidate.column else (false, outline)
      let marks := if opened then [Piece.mappingStart, .key] else [.key]
      let outline := { outline with
        slots := outline.slots.setIfInBounds candidate.slot marks
        candidates := outline.candidates.filter fun entry => entry.1 ≠ outline.depth
        keyAllowed := false }
      .ok (outline.pushAt .value outline.source.advance)
  | none => do
      let outline ← outline.blockMark .mappingStart .value
      .ok { outline with keyAllowed := outline.inBlock }

/-- Adds a piece in front of which a key may begin. -/
def keyPiece (outline : Outline) (read : Source → Except Fault (Piece × Source)) :
    Except Fault Outline := do
  let outline ← outline.noteCandidate
  let (piece, after) ← read outline.source
  .ok { outline.pushAt piece after with keyAllowed := false }

/-- Reads an alias or an anchor. -/
def named (outline : Outline) (piece : String → Piece) : Except Fault Outline :=
  outline.keyPiece fun source => do
    let (name, after) ← anchorName source
    .ok (piece name, after)

def quoted (outline : Outline) (double : Bool) : Except Fault Outline :=
  outline.keyPiece fun source => do
    let (text, after) ← quotedScalar double source
    .ok (.scalar (String.ofList text) false, after)

def block (outline : Outline) (folds : Bool) : Except Fault Outline := do
  let outline ← outline.dropCandidate
  let (text, after) ← blockScalar folds outline.indent outline.source
  .ok { outline.pushAt (.scalar (String.ofList text) false) after with keyAllowed := true }

/-- Reads a plain scalar.  A key may follow if a line ended behind it. -/
def plain (outline : Outline) : Except Fault Outline := do
  let outline ← outline.noteCandidate
  let (text, crossedLine, after) :=
    plainScalar (!outline.inBlock) (outline.indent + 1) outline.source
  .ok { outline.pushAt (.scalar (String.ofList text) true) after with keyAllowed := crossedLine }

/-- Characters that cannot begin a plain scalar by themselves. -/
def isIndicator (character : Char) : Bool :=
  endsPiece (some character) ||
    "-?:,[]\x7b\x7d#&*!|>\x27\"%@\x60".toList.contains character

/-- Whether a plain scalar begins with a character, given what follows it. -/
def beginsPlain (outline : Outline) (character : Char) (next : Option Char) : Bool :=
  !isIndicator character ||
    (!endsPiece next &&
      (character = '-' || (outline.inBlock && (character = '?' || character = ':'))))

/-- Reads the piece that begins with a character. -/
def pieceAt (outline : Outline) (character : Char) (next : Option Char) :
    Except Fault Outline :=
  let source := outline.source
  let atMargin := source.column = 0
  if character = '%' && atMargin then do
    let outline ← outline.closeAll
    let (piece, after) ← directiveAt outline.source
    .ok (outline.pushAt piece after)
  else if atMargin && source.atMarker '-' then outline.documentMark .documentStart
  else if atMargin && source.atMarker '.' then outline.documentMark .documentEnd
  else if character = '[' then outline.openBracket .flowSequenceStart
  else if character = '\x7b' then outline.openBracket .flowMappingStart
  else if character = ']' then outline.closeBracket .flowSequenceEnd
  else if character = '\x7d' then outline.closeBracket .flowMappingEnd
  else if character = ',' then outline.comma
  else if character = '-' && endsPiece next then outline.dash
  else if character = '?' && (!outline.inBlock || endsPiece next) then outline.questionMark
  else if character = ':' && (!outline.inBlock || endsPiece next) then outline.colon
  else if character = '*' then outline.named .alias
  else if character = '&' then outline.named .anchor
  else if character = '!' then outline.keyPiece tagAt
  else if character = '|' && outline.inBlock then outline.block false
  else if character = '>' && outline.inBlock then outline.block true
  else if character = '\x27' then outline.quoted false
  else if character = '"' then outline.quoted true
  else if outline.beginsPlain character next then outline.plain
  else .error .malformed

/-- Reads the next piece, and tells whether it was the end of the text. -/
def next (outline : Outline) : Except Fault (Bool × Outline) := do
  let outline := skipBlanks (outline.source.rest.length + 1) outline
  let outline := (← outline.dropStale).unwind outline.source.column
  match outline.source.rest with
  | [] =>
      let outline ← outline.closeAll
      .ok (true, outline.push .textEnd)
  | character :: rest =>
      let outline ← outline.pieceAt character rest.head?
      .ok (false, outline)

/-- Reads at most the given number of pieces. -/
def all : Nat → Outline → Except Fault Outline
  | 0, outline => .ok outline
  | fuel + 1, outline => do
      let (ended, outline) ← outline.next
      if ended then .ok outline else all fuel outline

end Outline

/-- Characters that may stand in a YAML text at all. -/
def isAllowed (character : Char) : Bool :=
  let code := character.toNat
  code = 0x09 || code = 0x0a || code = 0x0d || (0x20 ≤ code && code ≤ 0x7e) || code = 0x85 ||
    (0xa0 ≤ code && code ≤ 0xfffd) || 0x10000 ≤ code

/-- The pieces of a text.  A byte order mark in front is dropped. -/
def pieces (text : List Char) : Except Fault (List Piece) :=
  if !text.all isAllowed then .error .malformed
  else
    let body :=
      match text with
      | '\ufeff' :: rest => rest
      | body => body
    match Outline.all (body.length + 2) (.start body) with
    | .ok outline => .ok outline.slots.toList.flatten
    | .error fault => .error fault

end Yaml
end TeenyBasic
