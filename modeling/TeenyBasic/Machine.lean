import TeenyBasic.Arithmetic
import TeenyBasic.Destinations
import TeenyBasic.Lexer
import TeenyBasic.Number.Written
import TeenyBasic.Symbols
import TeenyBasic.Text.Lines

/-!
# Running a program

A machine runs a program line by line.  Its cursor is the list of tokens that remain; the places
of tokens in the program, which the jump table speaks about, are counted from the first token.
The blocks that are being executed are kept on a stack, innermost first, with the place of the
word that opened each.

Reaching the end of a loop leads back to the word that opened it, so a loop is decided anew each
time; a condition that is not met leads to the closing word.  A jump leaves every block.

Each step executes one line and then looks for the end of the line, so a line that is faulty
behind its statement still has its effect.
-/

namespace TeenyBasic

/-- A program ready to run: its tokens without the end token, the line of that, and where jumps
lead. -/
structure Program where
  body : List Token
  lastLine : Int
  destinations : Destinations

/-- Why tokens are no program. -/
inductive LoadFault
  | missingEnd
  | names (diagnostic : Diagnostic)

namespace Program

/-- Makes a program of tokens and the end token behind them. -/
def assemble (body : List Token) (last : Token) : Except Diagnostic Program :=
  match Destinations.ofTokens (body ++ [last]) with
  | .ok destinations => .ok ⟨body, last.line, destinations⟩
  | .error diagnostic => .error diagnostic

/-- Makes tokens a program.  They must end with the end token. -/
def load (tokens : List Token) : Except LoadFault Program :=
  match tokens.getLast? with
  | some token =>
      if token.kind = .eof then
        match assemble tokens.dropLast token with
        | .ok program => .ok program
        | .error diagnostic => .error (.names diagnostic)
      else .error .missingEnd
  | none => .error .missingEnd

def ofSource (source : String) : Except Diagnostic Program :=
  let found := Lexer.scan (Lexer.Cursor.start source)
  match found.ending with
  | .eof line => assemble found.tokens (Token.eofAt line)
  | .fault diagnostic => .error diagnostic

/-- What stands behind the tokens of a program. -/
def ending (program : Program) : Ending :=
  .eof program.lastLine

def tokensFrom (program : Program) (place : Nat) : List Token :=
  program.body.drop place

end Program

/-- A program being run. -/
structure Machine where
  program : Program
  /-- The tokens from the cursor on. -/
  rest : List Token
  /-- The blocks being executed and where they were opened, innermost first. -/
  blocks : List (Block × Nat)
  symbols : Symbols
  /-- Labels that executed jumps named, each once. -/
  targets : List String
  /-- What can still be read from the console. -/
  input : List Char
  /-- What was printed. -/
  output : String

inductive Step
  | next (machine : Machine)
  | halt (machine : Machine)
  | fault (machine : Machine) (diagnostic : Diagnostic)

namespace Machine

/-- A machine before its first line. -/
def start (program : Program) (input : List Char) : Machine where
  program := program
  rest := program.body.dropWhile Token.isNewline
  blocks := []
  symbols := .empty
  targets := []
  input := input
  output := ""

/-- A machine set back to its first line, with no variable, block or jump left of an earlier run.
The console goes on where it is. -/
def restart (machine : Machine) : Machine :=
  { machine with
    rest := machine.program.body.dropWhile Token.isNewline
    blocks := []
    symbols := .empty
    targets := [] }

def place (machine : Machine) : Nat :=
  machine.program.body.length - machine.rest.length

/-- Operands as numbers; a variable is usable once it has a value. -/
def meaning (machine : Machine) : Meaning Float where
  number := id
  lookup := machine.symbols.get?
  positive := id
  negative := Float.neg

def print (machine : Machine) (text : String) : Machine :=
  { machine with output := machine.output ++ (text ++ "\n") }

def assign (machine : Machine) (name : String) (value : Float) : Machine :=
  { machine with symbols := machine.symbols.set name value }

/-- Reads a line from the console into a variable. -/
def inputTo (machine : Machine) (name : String) : Machine :=
  { machine.assign name (Number.entered (Text.firstLine machine.input)) with
    input := Text.afterFirstLine machine.input }

def noteTarget (machine : Machine) (name : String) : Machine :=
  if machine.targets.contains name then machine
  else { machine with targets := machine.targets ++ [name] }

/-- Goes on behind the end of the line that the tokens must begin with. -/
def finishLine (machine : Machine) (tokens : List Token) : Step :=
  match machine.program.ending.expectLineEnd tokens with
  | .ok rest => .next { machine with rest := rest }
  | .error diagnostic => .fault machine diagnostic

def printLine (machine : Machine) (tokens : List Token) : Step :=
  match tokens with
  | ⟨.string content, _, _⟩ :: rest => (machine.print content).finishLine rest
  | _ =>
      match Formula.expression machine.meaning machine.program.ending tokens with
      | .ok (formula, rest) => (machine.print (Number.written formula.value)).finishLine rest
      | .error diagnostic => .fault machine diagnostic

/-- Reads the first line of a block: its condition, and the tokens behind the line. -/
def header (machine : Machine) (block : Block) (tokens : List Token) :
    Except Diagnostic (Formula Float × List Token) :=
  match Formula.condition machine.meaning machine.program.ending tokens with
  | .error diagnostic => .error diagnostic
  | .ok (condition, rest) =>
      match machine.program.ending.expect (.keyword block.separator) rest with
      | .error diagnostic => .error diagnostic
      | .ok rest =>
          match machine.program.ending.expectLineEnd rest with
          | .error diagnostic => .error diagnostic
          | .ok rest => .ok (condition, rest)

/-- Goes on behind the closing word of the block that is opened at the cursor. -/
def skipBlock (machine : Machine) (block : Block) : Step :=
  let closing := machine.program.destinations.closingFrom machine.place
  match machine.program.ending.expect (.keyword block.closer)
      (machine.program.tokensFrom closing.toNat) with
  | .ok rest => machine.finishLine rest
  | .error diagnostic => .fault machine diagnostic

/-- Executes the first line of a block: enters the block if the condition is met. -/
def openLine (machine : Machine) (block : Block) (tokens : List Token) : Step :=
  match machine.header block tokens with
  | .error diagnostic => .fault machine diagnostic
  | .ok (condition, rest) =>
      if condition.isMet then
        .next { machine with rest := rest, blocks := (block, machine.place) :: machine.blocks }
      else machine.skipBlock block

/-- Executes a line that declares a label, which does nothing. -/
def labelLine (machine : Machine) (tokens : List Token) : Step :=
  match machine.program.ending.expectName tokens with
  | .ok (_, _, rest) => machine.finishLine rest
  | .error diagnostic => .fault machine diagnostic

/-- Executes a jump, which needs a complete line. -/
def gotoLine (machine : Machine) (tokens : List Token) : Step :=
  match machine.program.ending.expectName tokens with
  | .error diagnostic => .fault machine diagnostic
  | .ok (name, line, rest) =>
      match machine.program.ending.expect .newline rest with
      | .error diagnostic => .fault machine diagnostic
      | .ok _ =>
          let machine := machine.noteTarget name
          match machine.program.destinations.label? name with
          | none => .fault machine (.undeclaredLabel name line)
          | some place =>
              .next { machine with rest := machine.program.tokensFrom place, blocks := [] }

/-- Executes an assignment.  The variable has the value zero in its own expression if it had none
before. -/
def letLine (machine : Machine) (tokens : List Token) : Step :=
  match machine.program.ending.expectName tokens with
  | .error diagnostic => .fault machine diagnostic
  | .ok (name, _, rest) =>
      let machine := { machine with symbols := machine.symbols.declare name }
      match machine.program.ending.expect .assign rest with
      | .error diagnostic => .fault machine diagnostic
      | .ok rest =>
          match Formula.expression machine.meaning machine.program.ending rest with
          | .error diagnostic => .fault machine diagnostic
          | .ok (formula, rest) => (machine.assign name formula.value).finishLine rest

/-- Executes a line that reads a number. -/
def inputLine (machine : Machine) (tokens : List Token) : Step :=
  match machine.program.ending.expectName tokens with
  | .error diagnostic => .fault machine diagnostic
  | .ok (name, _, rest) => (machine.inputTo name).finishLine rest

/-- Executes the line that begins with a token. -/
def line (machine : Machine) (token : Token) (rest : List Token) : Step :=
  match token.lexeme with
  | .keyword .printWord => machine.printLine rest
  | .keyword .ifWord => machine.openLine .conditional rest
  | .keyword .whileWord => machine.openLine .loop rest
  | .keyword .labelWord => machine.labelLine rest
  | .keyword .gotoWord => machine.gotoLine rest
  | .keyword .letWord => machine.letLine rest
  | .keyword .inputWord => machine.inputLine rest
  | _ => .fault machine (.invalidStatement token)

/-- Leaves the innermost block at its closing word. -/
def closeLine (machine : Machine) (block : Block) (opener : Nat) (outer : List (Block × Nat))
    (rest : List Token) : Step :=
  match block with
  | .loop => .next { machine with rest := machine.program.tokensFrom opener, blocks := outer }
  | .conditional => { machine with blocks := outer }.finishLine rest

def step (machine : Machine) : Step :=
  match machine.rest, machine.blocks with
  | [], [] => .halt machine
  | [], _ :: _ => .fault machine (machine.program.ending.refuse .invalidStatement)
  | token :: rest, [] =>
      if token.kind = .eof then .halt machine else machine.line token rest
  | token :: rest, (block, opener) :: outer =>
      if token.kind = .keyword block.closer then machine.closeLine block opener outer rest
      else machine.line token rest

/-- A machine that has stopped, with the fault that stopped it if it was one. -/
structure Stopped where
  machine : Machine
  fault : Option Diagnostic

/-- Runs at most the given number of lines; there is no answer if that was not enough. -/
def run? : Nat → Machine → Option Stopped
  | 0, _ => none
  | budget + 1, machine =>
      match machine.step with
      | .next machine => run? budget machine
      | .halt machine => some ⟨machine, none⟩
      | .fault machine diagnostic => some ⟨machine, some diagnostic⟩

end Machine

end TeenyBasic
