import TeenyBasic.Yaml.Outline
import TeenyBasic.Yaml.Tag

/-!
# From pieces to a tree of nodes

The pieces of a document form a tree of scalars, sequences and mappings.  A node may carry a tag
and an anchor, and an alias stands for the node that its anchor marks.  An alias inside the very
node it stands for is read as an empty node of that form.
-/

namespace TeenyBasic
namespace Yaml

inductive Node
  | scalar (tag : Tag) (text : String)
  | sequence (tag : Tag) (items : List Node)
  | mapping (tag : Tag) (entries : List (Node × Node))

/-- The node that stands where nothing is written. -/
def Node.empty : Node :=
  .scalar .null ""

/-- The state of reading nodes. -/
structure Growth where
  pieces : List Piece
  anchors : List (String × Node)
  /-- What tag handles stand for. -/
  handles : List (String × String)

/-- Reading nodes from pieces. -/
abbrev Growing (α : Type) : Type :=
  StateT Growth (Except Fault) α

namespace Growing

def front : Growing (Option Piece) := do
  return (← get).pieces.head?

/-- Passes the piece in front. -/
def pass : Growing Unit :=
  modify fun growth => { growth with pieces := growth.pieces.drop 1 }

/-- Passes the piece in front if it is the given one, and tells whether it was. -/
def passIf (piece : Piece) : Growing Bool := do
  if (← front) = some piece then
    pass
    return true
  else return false

/-- Passes the given piece, which must be in front. -/
def expect (piece : Piece) : Growing Unit := do
  if !(← passIf piece) then throw .malformed

def atOneOf (candidates : List Piece) : Growing Bool := do
  return (← front).any candidates.contains

def anchor : Growing (Option String) := do
  match (← front) with
  | some (.anchor name) =>
      pass
      return some name
  | _ => return none

/-- Reads a tag, if one is in front, and writes out its handle. -/
def tag : Growing (Option String) := do
  match (← front) with
  | some (.tag none suffix) =>
      pass
      return some suffix
  | some (.tag (some handle) suffix) =>
      pass
      match (← get).handles.lookup handle with
      | some expansion => return some (expansion ++ suffix)
      | none => throw .malformed
  | _ => return none

/-- Reads an anchor and a tag in either order. -/
def properties : Growing (Option String × Option String) := do
  let first ← anchor
  let name ← tag
  match first, name with
  | none, some _ => return (← anchor, name)
  | _, _ => return (first, name)

/-- Marks a node by an anchor, which must be new. -/
def mark (name : Option String) (node : Node) : Growing Unit := do
  match name with
  | none => return
  | some name =>
      if ((← get).anchors.lookup name).isSome then throw .malformed
      else modify fun growth => { growth with anchors := (name, node) :: growth.anchors }

/-- Marks a finished node by an anchor that marked it while it was read. -/
def remark (name : Option String) (node : Node) : Growing Node := do
  match name with
  | none => return node
  | some name =>
      modify fun growth => { growth with anchors := (name, node) :: growth.anchors }
      return node

def aliased (name : String) : Growing Node := do
  match (← get).anchors.lookup name with
  | some node => return node
  | none => throw .malformed

/-- The tag of a scalar: the written one, or the one that follows from its form. -/
def scalarTag (written : Option String) (plain : Bool) (text : String) : Tag :=
  match written with
  | none => if plain then Tag.ofPlain text else .text
  | some "!" => Tag.ofPlain text
  | some name => Tag.ofName name

def collectionTag (written : Option String) (usual : Tag) : Tag :=
  match written with
  | none => usual
  | some "!" => usual
  | some name => Tag.ofName name

/-- Reads a collection by a reader of its contents. -/
def collection {α : Type} (anchor : Option String) (make : List α → Node)
    (contents : Growing (List α)) : Growing Node := do
  mark anchor (make [])
  remark anchor (make (← contents))

end Growing

open Growing

mutual

/-- Reads a node.  In a block it may be a block itself, and behind a key also a sequence that is
not indented. -/
def readNode (block unindented : Bool) : Nat → Growing Node
  | 0 => throw .malformed
  | fuel + 1 => do
      match (← front) with
      | some (.alias name) =>
          pass
          aliased name
      | _ =>
          let (anchor, tag) ← properties
          let sequence := Node.sequence (collectionTag tag .sequence)
          let mapping := Node.mapping (collectionTag tag .mapping)
          match (← front) with
          | some (.scalar text plain) =>
              pass
              let node := Node.scalar (scalarTag tag plain text) text
              mark anchor node
              return node
          | some .flowSequenceStart =>
              pass
              collection anchor sequence (readFlowItems true fuel)
          | some .flowMappingStart =>
              pass
              collection anchor mapping (readFlowEntries true fuel)
          | piece =>
              if piece = some .entry && unindented then
                collection anchor sequence (readUnindentedItems fuel)
              else if piece = some .sequenceStart && block then
                pass
                collection anchor sequence (readBlockItems fuel)
              else if piece = some .mappingStart && block then
                pass
                collection anchor mapping (readBlockEntries fuel)
              else if anchor.isSome || tag.isSome then
                let node := Node.scalar (scalarTag tag true "") ""
                mark anchor node
                return node
              else throw .malformed

/-- Reads the node behind a mark, or the empty node before one of the given pieces. -/
def readBehind (block unindented : Bool) (stops : List Piece) : Nat → Growing Node
  | 0 => throw .malformed
  | fuel + 1 => do
      if (← atOneOf stops) then return .empty else readNode block unindented fuel

def readBlockItems : Nat → Growing (List Node)
  | 0 => throw .malformed
  | fuel + 1 => do
      if (← passIf .entry) then
        let item ← readBehind true false [.entry, .blockEnd] fuel
        return item :: (← readBlockItems fuel)
      else
        expect .blockEnd
        return []

/-- Reads the items of a sequence that is not indented. -/
def readUnindentedItems : Nat → Growing (List Node)
  | 0 => throw .malformed
  | fuel + 1 => do
      if (← passIf .entry) then
        let item ← readBehind true false [.entry, .key, .value, .blockEnd] fuel
        return item :: (← readUnindentedItems fuel)
      else return []

/-- Reads the entries of an indented mapping. -/
def readBlockEntries : Nat → Growing (List (Node × Node))
  | 0 => throw .malformed
  | fuel + 1 => do
      if (← passIf .key) then
        let key ← readBehind true true [.key, .value, .blockEnd] fuel
        let value ←
          if (← passIf .value) then readBehind true true [.key, .value, .blockEnd] fuel
          else pure .empty
        return (key, value) :: (← readBlockEntries fuel)
      else
        expect .blockEnd
        return []

/-- Reads the items of a bracketed sequence; a key among them makes a mapping of one entry. -/
def readFlowItems (first : Bool) : Nat → Growing (List Node)
  | 0 => throw .malformed
  | fuel + 1 => do
      if (← passIf .flowSequenceEnd) then return []
      else
        if !first then expect .comma
        if (← passIf .key) then
          let key ← readBehind false false [.value, .comma, .flowSequenceEnd] fuel
          let value ←
            if (← passIf .value) then readBehind false false [.comma, .flowSequenceEnd] fuel
            else pure .empty
          return .mapping .mapping [(key, value)] :: (← readFlowItems false fuel)
        else if (← passIf .flowSequenceEnd) then return []
        else
          let item ← readNode false false fuel
          return item :: (← readFlowItems false fuel)

/-- Reads the entries of a bracketed mapping; a node without a key mark has no value. -/
def readFlowEntries (first : Bool) : Nat → Growing (List (Node × Node))
  | 0 => throw .malformed
  | fuel + 1 => do
      if (← passIf .flowMappingEnd) then return []
      else
        if !first then expect .comma
        if (← passIf .key) then
          let key ← readBehind false false [.value, .comma, .flowMappingEnd] fuel
          let value ←
            if (← passIf .value) then readBehind false false [.comma, .flowMappingEnd] fuel
            else pure .empty
          return (key, value) :: (← readFlowEntries false fuel)
        else if (← passIf .flowMappingEnd) then return []
        else
          let key ← readNode false false fuel
          return (key, .empty) :: (← readFlowEntries false fuel)

end

/-- Reads directives: at most one version, which must be 1, and one meaning for each handle. -/
def readDirectives : Nat → Bool → List (String × String) → Growing (List (String × String))
  | 0, _, handles => return handles
  | fuel + 1, versioned, handles => do
      match (← front) with
      | some (.versionDirective major) =>
          if versioned || major ≠ 1 then throw .malformed
          pass
          readDirectives fuel true handles
      | some (.tagDirective handle expansion) =>
          if (handles.lookup handle).isSome then throw .malformed
          pass
          readDirectives fuel versioned ((handle, expansion) :: handles)
      | some .otherDirective =>
          pass
          readDirectives fuel versioned handles
      | _ => return handles

def usualHandles : List (String × String) :=
  [("!", "!"), ("!!", coreTags)]

def Piece.isDirective : Piece → Bool
  | versionDirective _ => true
  | tagDirective _ _ => true
  | otherDirective => true
  | _ => false

def passDocumentEnds : Nat → Growing Unit
  | 0 => return
  | fuel + 1 => do if (← passIf .documentEnd) then passDocumentEnds fuel

/-- Reads the document of a text that begins with directives or with a mark. -/
def readExplicit (fuel : Nat) : Growing Node := do
  let declared ← readDirectives fuel false []
  modify fun growth => { growth with handles := declared ++ usualHandles }
  expect .documentStart
  let atEnd := (← front).any fun piece =>
    piece.isDirective || [Piece.documentStart, .documentEnd, .textEnd].contains piece
  if atEnd then return .empty else readNode true false fuel

def readDocument (fuel : Nat) : Growing (Option Node) := do
  match (← front) with
  | some .textEnd => return none
  | some piece =>
      let explicit := piece.isDirective || piece = .documentStart
      let node ← if explicit then readExplicit fuel else readNode true false fuel
      passDocumentEnds fuel
      expect .textEnd
      return some node
  | none => throw .malformed

/-- The node of a text, if it has a document, and a number that its depth does not exceed. -/
def document (text : List Char) : Except Fault (Option Node × Nat) := do
  let pieces ← pieces text
  let fuel := 8 * pieces.length + 16
  let (node, _) ← (readDocument fuel).run ⟨pieces, [], usualHandles⟩
  return (node, fuel)

end Yaml
end TeenyBasic
