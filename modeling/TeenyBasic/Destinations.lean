import TeenyBasic.Block
import TeenyBasic.Diagnostic

/-!
# Where jumps lead

Before a program runs, one pass over its tokens finds the token that closes each block and the
token that declares each label.  A closing word that does not fit the innermost open block closes
nothing, and a block that nothing closes is taken to end with the last token.
-/

namespace TeenyBasic

/-- The closing tokens of blocks and the declarations of labels, by their places in the list of
tokens. -/
structure Destinations where
  /-- Place of the opening word and place of the closing word, in the order of closing. -/
  closings : List (Nat × Nat)
  /-- Labels in the order of declaration, with the place of the word `LABEL`. -/
  labels : List (String × Nat)
  /-- Place of the last token, one below the first place if there is none. -/
  lastPlace : Int
  deriving DecidableEq, Repr

namespace Destinations

/-- The place that closes a block, given the place that opens it. -/
def closer? (destinations : Destinations) (place : Nat) : Option Nat :=
  (destinations.closings.find? (·.1 = place)).map (·.2)

/-- The place where the block opened at a place ends: its closing word, or the last token. -/
def closingFrom (destinations : Destinations) : Int → Int
  | .ofNat place => ((destinations.closer? place).map Int.ofNat).getD destinations.lastPlace
  | .negSucc _ => destinations.lastPlace

def label? (destinations : Destinations) (name : String) : Option Nat :=
  (destinations.labels.find? (·.1 = name)).map (·.2)

/-- Notes that the closing word of a block stands at a place, given the open blocks. -/
def close (destinations : Destinations) (block : Block) (place : Nat) :
    List (Block × Nat) → Destinations × List (Block × Nat)
  | (inner, opener) :: outer =>
      if inner = block then
        ({ destinations with closings := destinations.closings ++ [(opener, place)] }, outer)
      else (destinations, (inner, opener) :: outer)
  | [] => (destinations, [])

/-- Notes that the word `LABEL` stands at a place, given the tokens behind it. -/
def declare (destinations : Destinations) (place : Nat) :
    List Token → Except Diagnostic Destinations
  | ⟨.identifier name, _, line⟩ :: _ =>
      if (destinations.label? name).isSome then .error (.repeatedLabel name line)
      else .ok { destinations with labels := destinations.labels ++ [(name, place)] }
  | _ => .ok destinations

/-- Goes through the tokens from a place on, given the blocks that are open there. -/
def collect (destinations : Destinations) (blocks : List (Block × Nat)) (place : Nat) :
    List Token → Except Diagnostic Destinations
  | [] => .ok destinations
  | token :: rest =>
      match token.lexeme with
      | .keyword .ifWord => collect destinations ((.conditional, place) :: blocks) (place + 1) rest
      | .keyword .whileWord => collect destinations ((.loop, place) :: blocks) (place + 1) rest
      | .keyword .endifWord =>
          let (destinations, blocks) := destinations.close .conditional place blocks
          collect destinations blocks (place + 1) rest
      | .keyword .endwhileWord =>
          let (destinations, blocks) := destinations.close .loop place blocks
          collect destinations blocks (place + 1) rest
      | .keyword .labelWord =>
          match destinations.declare place rest with
          | .error diagnostic => .error diagnostic
          | .ok destinations => collect destinations blocks (place + 1) rest
      | _ => collect destinations blocks (place + 1) rest

/-- The jump destinations of a list of tokens; fails if a label is declared twice. -/
def ofTokens (tokens : List Token) : Except Diagnostic Destinations :=
  collect ⟨[], [], tokens.length - 1⟩ [] 0 tokens

end Destinations

end TeenyBasic
