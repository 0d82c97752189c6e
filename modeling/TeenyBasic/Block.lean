import TeenyBasic.Token

/-!
# Blocks

The two kinds of block, with the words that open them, end their first line and close them.
-/

namespace TeenyBasic

/-- A block of lines that a condition governs. -/
inductive Block
  | conditional
  | loop
  deriving DecidableEq, Repr

namespace Block

def opener : Block → Keyword
  | conditional => .ifWord
  | loop => .whileWord

/-- The word behind the condition of a block. -/
def separator : Block → Keyword
  | conditional => .thenWord
  | loop => .repeatWord

def closer : Block → Keyword
  | conditional => .endifWord
  | loop => .endwhileWord

def ofOpener? : Keyword → Option Block
  | .ifWord => some conditional
  | .whileWord => some loop
  | _ => none

def ofCloser? : Keyword → Option Block
  | .endifWord => some conditional
  | .endwhileWord => some loop
  | _ => none

@[simp] theorem ofOpener?_opener (block : Block) : ofOpener? block.opener = some block := by
  cases block <;> rfl

@[simp] theorem ofCloser?_closer (block : Block) : ofCloser? block.closer = some block := by
  cases block <;> rfl

end Block

end TeenyBasic
